import SmallScript.Proofs.Machine.Link
import SmallScript.Machine.Action

/-!
# Two machines in step

A `Base` is where two runs of one program begin: two machines with some cells of the first paired with
cells of the second. Both runs allocate in step, so the cell that one adds is paired with the cell that
the other adds at the same moment; `Base.pairs` says this once for all cells to come.

`Linked β m m'` is the invariant of the two runs: paired cells have linked contents, all other cells of
the beginning are as they were, the modules are as they were, and both surroundings have undergone the
same effects. `Bridge.allocate`, `Bridge.update` and `Bridge.affect` are the steps that keep it.
-/

namespace SmallScript.Machine

open Value (ScopeRef ObjectRef Native modules guardedModules)
open Data (Table)
open Number (Numeric)

variable {h h' : Heap} {c c' : Content} {k : CellKind} {i j : Nat}

/-! ## Effects on the surroundings -/

/-- What a guarded program does to its surroundings: it prints, sends requests and waits. -/
structure Effects where
  printed : String
  requests : List World.Request
  slept : List Numeric

namespace Effects

def nothing : Effects := ⟨"", [], []⟩

/-- The surroundings after some effects. -/
def on (e : Effects) (w : World) : World :=
  { w with
    output := w.output ++ e.printed
    requests := e.requests ++ w.requests
    slept := e.slept ++ w.slept }

/-- Effects and then further ones. -/
def andThen (e f : Effects) : Effects :=
  ⟨e.printed ++ f.printed, f.requests ++ e.requests, f.slept ++ e.slept⟩

theorem nothing_on (w : World) : nothing.on w = w := by
  simp [nothing, on]

theorem andThen_on (e f : Effects) (w : World) : (e.andThen f).on w = f.on (e.on w) := by
  simp [andThen, on, String.append_assoc]

end Effects

/-- Surroundings that answer alike: the same files, network, clock and random source. -/
structure SameSurroundings (w w' : World) : Prop where
  files : w.files = w'.files
  routes : w.routes = w'.routes
  clock : w.clock = w'.clock
  random : w.random = w'.random

/-! ## The beginning of two runs -/

/-- Two machines with paired cells. -/
structure Base where
  left : Machine
  right : Machine
  known : Link
  known_inj : Link.IsInjective known
  content : ∀ {k i j}, known k i j → ∃ c c', left.heap.content? k i = some c ∧
    right.heap.content? k j = some c' ∧ ContentLink known i j c c'
  stamp : known .stamp 0 0
  openModules : ∀ name ref, Heap.module? name = some ref → name ∉ guardedModules → RefLink known ref ref
  modulesLeft : modules.length ≤ left.heap.count .record
  modulesRight : modules.length ≤ right.heap.count .record
  surroundings : SameSurroundings left.world right.world

namespace Base

variable (β : Base)

/-- The pairs of cells: those known from the beginning, and those added in step. -/
def pairs : Link := fun k i j =>
  β.known k i j ∨ ∃ t, i = β.left.heap.count k + t ∧ j = β.right.heap.count k + t

/-- The pairs whose cells are there. -/
def link (h : Heap) : Link := fun k i j => β.pairs k i j ∧ i < h.count k

variable {β}

theorem lt_of_known (h : β.known k i j) : i < β.left.heap.count k ∧ j < β.right.heap.count k := by
  obtain ⟨c, c', hc, hc', -⟩ := β.content h
  exact ⟨Heap.lt_count_of_content? hc, Heap.lt_count_of_content? hc'⟩

theorem pairs_inj : Link.IsInjective β.pairs := by
  intro k i j i' j' h h'
  rcases h with h | ⟨t, rfl, rfl⟩ <;> rcases h' with h' | ⟨t', rfl, rfl⟩
  · exact β.known_inj h h'
  · have := lt_of_known h
    omega
  · have := lt_of_known h'
    omega
  · omega

theorem link_mono (hc : ∀ k, h.count k ≤ h'.count k) : β.link h ≤ β.link h' :=
  fun k _ _ hl => ⟨hl.1, lt_of_lt_of_le hl.2 (hc k)⟩

theorem known_le_link (h : Heap) (hc : ∀ k, β.left.heap.count k ≤ h.count k) : β.known ≤ β.link h :=
  fun k _ _ hk => ⟨.inl hk, lt_of_lt_of_le (lt_of_known hk).1 (hc k)⟩

end Base

/-! ## The invariant -/

/-- Two machines on their way from a base. -/
structure Linked (β : Base) (m m' : Machine) : Prop where
  counts : ∀ k, ∃ n, m.heap.count k = β.left.heap.count k + n ∧
    m'.heap.count k = β.right.heap.count k + n
  content : ∀ {k i j}, β.link m.heap k i j → ∃ c c', m.heap.content? k i = some c ∧
    m'.heap.content? k j = some c' ∧ ContentLink (β.link m.heap) i j c c'
  frameLeft : ∀ k i, i < β.left.heap.count k → (∀ j, ¬ β.known k i j) →
    m.heap.content? k i = β.left.heap.content? k i
  frameRight : ∀ k j, j < β.right.heap.count k → (∀ i, ¬ β.known k i j) →
    m'.heap.content? k j = β.right.heap.content? k j
  modulesLeft : ∀ i < modules.length, m.heap.content? .record i = β.left.heap.content? .record i
  modulesRight : ∀ i < modules.length, m'.heap.content? .record i = β.right.heap.content? .record i
  effects : ∃ e : Effects, m.world = e.on β.left.world ∧ m'.world = e.on β.right.world
  pendingLeft : m.pending = β.left.pending
  pendingRight : m'.pending = β.right.pending

/-- Two linked machines. -/
structure Bridge (β : Base) where
  left : Machine
  right : Machine
  linked : Linked β left right

namespace Bridge

variable {β : Base} (b : Bridge β)

/-- The pairs of cells that are there. -/
def link : Link := β.link b.left.heap

/-- Later bridges have at least the same cells. -/
instance : Preorder (Bridge β) where
  le b b' := ∀ k, b.left.heap.count k ≤ b'.left.heap.count k
  le_refl _ _ := Nat.le_refl _
  le_trans _ _ _ h h' k := Nat.le_trans (h k) (h' k)

variable {b}

theorem left_count_le (b : Bridge β) (k : CellKind) : β.left.heap.count k ≤ b.left.heap.count k := by
  obtain ⟨n, hn, -⟩ := b.linked.counts k
  omega

theorem right_count_le (b : Bridge β) (k : CellKind) : β.right.heap.count k ≤ b.right.heap.count k := by
  obtain ⟨n, -, hn⟩ := b.linked.counts k
  omega

theorem known_le (b : Bridge β) : β.known ≤ b.link := Base.known_le_link _ b.left_count_le

theorem pairs_next (b : Bridge β) (k : CellKind) : β.pairs k (b.left.heap.count k) (b.right.heap.count k) := by
  obtain ⟨n, hl, hr⟩ := b.linked.counts k
  exact .inr ⟨n, hl, hr⟩

theorem link_inj (b : Bridge β) : Link.IsInjective b.link := fun _ _ _ _ _ h h' => Base.pairs_inj h.1 h'.1

theorem surroundings (b : Bridge β) : SameSurroundings b.left.world b.right.world := by
  obtain ⟨e, hl, hr⟩ := b.linked.effects
  obtain ⟨hf, hn, hc, hx⟩ := β.surroundings
  rw [hl, hr]
  exact ⟨hf, hn, hc, hx⟩

theorem stamp_zero (b : Bridge β) : b.link .stamp 0 0 := b.known_le _ _ _ β.stamp

/-! ## Steps -/

/-- The base as a bridge. -/
def start (β : Base) : Bridge β where
  left := β.left
  right := β.right
  linked := {
    counts := fun _ => ⟨0, rfl, rfl⟩
    content := by
      rintro k i j ⟨hp | ⟨t, rfl, -⟩, hi⟩
      · obtain ⟨c, c', hc, hc', hl⟩ := β.content hp
        exact ⟨c, c', hc, hc', hl.mono (Base.known_le_link _ fun _ => Nat.le_refl _)⟩
      · omega
    frameLeft := fun _ _ _ _ => rfl
    frameRight := fun _ _ _ _ => rfl
    modulesLeft := fun _ _ => rfl
    modulesRight := fun _ _ => rfl
    effects := ⟨.nothing, (Effects.nothing_on _).symm, (Effects.nothing_on _).symm⟩
    pendingLeft := rfl
    pendingRight := rfl }

/-- Both machines add a cell. -/
def allocate (b : Bridge β) (hl : b.left.heap.Allocates c h)
    (hr : b.right.heap.Allocates c' h')
    (hc : ContentLink b.link (b.left.heap.count c.kind) (b.right.heap.count c.kind) c c') :
    Bridge β where
  left := { b.left with heap := h }
  right := { b.right with heap := h' }
  linked := by
    have hk : c'.kind = c.kind := hc.kind_eq.symm
    have hle : ∀ k, b.left.heap.count k ≤ h.count k := fun k => by rw [hl.count k]; omega
    -- the new cell is behind all cells of the beginning
    have old_left : ∀ k i, i < b.left.heap.count k → h.content? k i = b.left.heap.content? k i := by
      intro k i hi
      rw [hl.content k i, if_neg (by omega)]
    have old_right : ∀ k i, i < b.right.heap.count k → h'.content? k i = b.right.heap.content? k i := by
      intro k i hi
      rw [hr.content k i, if_neg (by omega)]
    constructor
    · intro k
      obtain ⟨n, hn, hn'⟩ := b.linked.counts k
      refine ⟨n + if k = c.kind then 1 else 0, ?_, ?_⟩
      · exact (hl.count k).trans (by omega)
      · exact (hr.count k).trans (by rw [hk]; omega)
    · rintro k i j ⟨hp, hi⟩
      have hi : i < h.count k := hi
      by_cases hlt : i < b.left.heap.count k
      · obtain ⟨d, d', hd, hd', hl'⟩ := b.linked.content ⟨hp, hlt⟩
        refine ⟨d, d', ?_, ?_, hl'.mono (Base.link_mono hle)⟩
        · exact (old_left k i hlt).trans hd
        · exact (old_right k j (Heap.lt_count_of_content? hd')).trans hd'
      · have hcount := hl.count k
        have hkc : k = c.kind := by
          refine Classical.byContradiction fun hne => ?_
          rw [if_neg hne] at hcount
          omega
        subst hkc
        rw [if_pos rfl] at hcount
        have hi' : i = b.left.heap.count c.kind := by omega
        have hj : j = b.right.heap.count c.kind := (Base.pairs_inj hp (b.pairs_next _)).1 hi'
        subst hi' hj
        refine ⟨c, c', ?_, ?_, hc.mono (Base.link_mono hle)⟩
        · exact (hl.content _ _).trans (if_pos ⟨rfl, rfl⟩)
        · exact (hr.content _ _).trans (if_pos ⟨hk.symm, rfl⟩)
    · intro k i hi hn
      exact (old_left k i (Nat.lt_of_lt_of_le hi (b.left_count_le k))).trans (b.linked.frameLeft k i hi hn)
    · intro k j hj hn
      exact (old_right k j (Nat.lt_of_lt_of_le hj (b.right_count_le k))).trans
        (b.linked.frameRight k j hj hn)
    · intro i hi
      have := Nat.le_trans β.modulesLeft (b.left_count_le .record)
      exact (old_left .record i (by omega)).trans (b.linked.modulesLeft i hi)
    · intro i hi
      have := Nat.le_trans β.modulesRight (b.right_count_le .record)
      exact (old_right .record i (by omega)).trans (b.linked.modulesRight i hi)
    · exact b.linked.effects
    · exact b.linked.pendingLeft
    · exact b.linked.pendingRight

/-- Both machines change a cell of a pair; it is no module. -/
def update (b : Bridge β) (hp : b.link k i j)
    (hl : b.left.heap.Updates k i c h) (hr : b.right.heap.Updates k j c' h')
    (hc : ContentLink b.link i j c c')
    (hm : k = .record → modules.length ≤ i ∧ modules.length ≤ j) : Bridge β where
  left := { b.left with heap := h }
  right := { b.right with heap := h' }
  linked := by
    have hlink : β.link h = b.link := by
      funext k' i' j'
      simp only [Base.link, link, hl.count k']
    constructor
    · intro k'
      obtain ⟨n, hn, hn'⟩ := b.linked.counts k'
      exact ⟨n, (hl.count k').trans hn, (hr.count k').trans hn'⟩
    · intro k' i' j' hp'
      have hp' : β.link h k' i' j' := hp'
      rw [hlink] at hp'
      change ∃ c c', h.content? k' i' = _ ∧ h'.content? k' j' = _ ∧ ContentLink (β.link h) i' j' c c'
      rw [hlink, hl.content, hr.content]
      by_cases he : k' = k ∧ i' = i
      · obtain ⟨rfl, rfl⟩ := he
        have hj : j' = j := (b.link_inj hp' hp).1 rfl
        exact ⟨c, c', if_pos ⟨rfl, rfl⟩, if_pos ⟨rfl, hj⟩, by rw [hj]; exact hc⟩
      · have hj : ¬ (k' = k ∧ j' = j) := by
          rintro ⟨rfl, rfl⟩
          exact he ⟨rfl, (b.link_inj hp' hp).2 rfl⟩
        rw [if_neg he, if_neg hj]
        exact b.linked.content hp'
    · intro k' i' hi hn
      refine ((hl.content k' i').trans (if_neg ?_)).trans (b.linked.frameLeft k' i' hi hn)
      rintro ⟨rfl, rfl⟩
      rcases hp.1 with hk | ⟨t, ht, -⟩
      · exact hn j hk
      · omega
    · intro k' j' hj hn
      refine ((hr.content k' j').trans (if_neg ?_)).trans (b.linked.frameRight k' j' hj hn)
      rintro ⟨rfl, rfl⟩
      rcases hp.1 with hk | ⟨t, -, ht⟩
      · exact hn i hk
      · omega
    · intro i' hi
      refine ((hl.content .record i').trans (if_neg ?_)).trans (b.linked.modulesLeft i' hi)
      rintro ⟨hk, rfl⟩
      have := (hm hk.symm).1
      omega
    · intro j' hj
      refine ((hr.content .record j').trans (if_neg ?_)).trans (b.linked.modulesRight j' hj)
      rintro ⟨hk, rfl⟩
      have := (hm hk.symm).2
      omega
    · exact b.linked.effects
    · exact b.linked.pendingLeft
    · exact b.linked.pendingRight

/-- Both surroundings undergo an effect. -/
def affect (b : Bridge β) (e : Effects) : Bridge β where
  left := { b.left with world := e.on b.left.world }
  right := { b.right with world := e.on b.right.world }
  linked :=
    { b.linked with
      effects := by
        obtain ⟨f, hl, hr⟩ := b.linked.effects
        exact ⟨f.andThen e, by rw [Effects.andThen_on, ← hl], by rw [Effects.andThen_on, ← hr]⟩ }

section

variable (hl : b.left.heap.Allocates c h) (hr : b.right.heap.Allocates c' h')
  (hc : ContentLink b.link (b.left.heap.count c.kind) (b.right.heap.count c.kind) c c')

theorem le_allocate : b ≤ b.allocate hl hr hc := by
  intro k
  show b.left.heap.count k ≤ h.count k
  rw [hl.count k]
  omega

theorem link_allocate : (b.allocate hl hr hc).link c.kind (b.left.heap.count c.kind) (b.right.heap.count c.kind) := by
  refine ⟨b.pairs_next _, ?_⟩
  show b.left.heap.count c.kind < h.count c.kind
  rw [hl.count c.kind, if_pos rfl]
  omega

end

theorem le_update (hp : b.link k i j) (hl : b.left.heap.Updates k i c h) (hr : b.right.heap.Updates k j c' h')
    (hc : ContentLink b.link i j c c') (hm : k = .record → modules.length ≤ i ∧ modules.length ≤ j) :
    b ≤ b.update hp hl hr hc hm := by
  intro k'
  show b.left.heap.count k' ≤ h.count k'
  rw [hl.count k']

theorem le_affect (e : Effects) : b ≤ b.affect e := fun _ => le_refl _

end Bridge

end SmallScript.Machine

section

open SmallScript.Machine

variable {β : Base} {b b' : Bridge β}

/-- What is linked stays linked on later bridges. -/
theorem LE.le.links (h : b ≤ b') : b.link ≤ b'.link := Base.link_mono h

theorem LE.le.link (h : b ≤ b') {k i j} (hl : b.link k i j) : b'.link k i j := h.links k i j hl

end
