import SmallScript.Proofs.Registry.Downloads
import SmallScript.Proofs.Registry.Stock

/-!
# The latest version

A package remembers one version as its latest. It is written when a release is added and nowhere else, so it is the
greatest version of the releases that are left until the newest of them is removed, and again from the next release
on: `latest_current_iff`.
-/

namespace SmallScript.Registry

open List
open Packages (Version)

variable {x : Release} {event : Event} {p : Package} {b : Bool}

variable {d : Catalog}

theorem Version.not_lt_self (v : Version) : ¬ v < v := fun h => Version.key_ne_of_lt h rfl

namespace Catalog

variable {c d : Catalog} {r : Request} {package : Nat}

/-- A package remembers a version exactly if it is the greatest of its releases. -/
def UpToDate (c : Catalog) (p : Package) : Prop :=
  ∀ v, p.latest = some v ↔
    (∃ x ∈ c.releasesOf p, x.version = v) ∧ ∀ x ∈ c.releasesOf p, x.version = v ∨ x.version < v

/-- The release of a package, given by its number, that was added last, of those that are left. -/
def newest? (c : Catalog) (package : Nat) : Option Release := (c.releases.filter (·.package == package)).getLast?

/-- An event adds a release to a package. -/
def gains (c : Catalog) (package : Nat) (event : Event) : Bool :=
  (c.after event).releases.any fun x => x.package == package && c.releases.all (·.id != x.id)

/-- An event removes the newest release of a package. -/
def losesNewest (c : Catalog) (package : Nat) (event : Event) : Bool :=
  (c.newest? package).any fun x => (c.removed event).any (·.id == x.id)

/-- Whether a package is up to date after an event, if it is known whether it was before. -/
def currentAfter (c : Catalog) (package : Nat) (before : Bool) (event : Event) : Bool :=
  if c.gains package event then true else if c.losesNewest package event then false else before

/-- Whether a package is up to date after a run: it is, unless its newest release was removed and no release was added
to it since. -/
def current (c : Catalog) (package : Nat) : Bool → List Event → Bool
  | before, [] => before
  | before, event :: events => (c.after event).current package (c.currentAfter package before event) events

/-! ## The newest release -/

theorem newest?_mem (h : c.newest? package = some x) : x ∈ c.releases ∧ x.package = package := by
  obtain ⟨hx, hpackage⟩ := mem_filter.1 (mem_of_getLast? h)
  exact ⟨hx, by simpa using hpackage⟩

/-- The newest release has the greatest version. -/
theorem lt_newest? (h : Orderly c) {y} (hx : c.newest? p.id = some x)
    (hy : y ∈ c.releasesOf p) : y = x ∨ y.version < x.version := by
  have hlast : (c.releasesOf p).getLast? = some x := hx
  obtain ⟨front, hfront⟩ := getLast?_eq_some_iff.1 hlast
  have horder := h.releasesOf p
  rw [hfront] at horder hy
  rcases mem_append.1 hy with hy | hy
  · exact .inr ((pairwise_append.1 horder).2.2 y hy x (mem_singleton_self x)).2
  · exact .inl (mem_singleton.1 hy)

/-- A package that is still to come has no release. -/
theorem newest?_eq_none (h : Orderly c) (hpackage : c.nextPackage ≤ package) : c.newest? package = none := by
  refine Option.eq_none_iff_forall_ne_some.2 fun x hx => ?_
  obtain ⟨hx, hid⟩ := newest?_mem hx
  obtain ⟨p, hp, hold⟩ := h.held x hx
  have hlt := h.fresh p hp
  have hpackage := hold.package
  omega

/-- A package is up to date if the version that it remembers is that of its newest release. -/
theorem upToDate_iff (h : Orderly c) (p : Package) : c.UpToDate p ↔ p.latest = (c.newest? p.id).map (·.version) := by
  cases hnewest : c.newest? p.id with
  | none =>
    have hnone : c.releasesOf p = [] := getLast?_eq_none_iff.1 hnewest
    simp [UpToDate, hnone, Option.eq_none_iff_forall_ne_some]
  | some x =>
    have hx : x ∈ c.releasesOf p := mem_of_getLast? hnewest
    -- the greatest version is that of the newest release
    have hgreatest : ∀ v, ((∃ y ∈ c.releasesOf p, y.version = v) ∧
        ∀ y ∈ c.releasesOf p, y.version = v ∨ y.version < v) ↔ x.version = v := by
      intro v
      constructor
      · rintro ⟨⟨y, hy, rfl⟩, hall⟩
        rcases hall x hx with heq | hlt
        · exact heq
        · rcases lt_newest? h hnewest hy with rfl | hlt'
          · rfl
          · exact absurd (Version.lt_trans hlt hlt') (Version.not_lt_self _)
      · rintro rfl
        refine ⟨⟨x, hx, rfl⟩, fun y hy => ?_⟩
        rcases lt_newest? h hnewest hy with rfl | hlt
        · exact .inl rfl
        · exact .inr hlt
    simp only [UpToDate, hgreatest, Option.map_some]
    constructor
    · intro hall
      exact (hall x.version).2 rfl
    · intro hlatest v
      rw [hlatest, Option.some.injEq]

end Catalog

/-! ## What a request does to the newest releases -/

/-- What a request does to the versions that packages remember and to the versions of their releases. -/
inductive Revision (c d : Catalog) : Prop where
  /-- releases keep their numbers, packages and versions, and packages the version that they remember; a new package
  remembers none -/
  | same (g : Release → Release) (hg : ∀ x, (g x).id = x.id ∧ (g x).package = x.package ∧ (g x).version = x.version)
    (hreleases : d.releases = c.releases.map g)
    (hpackages : ∀ p ∈ d.packages, (∃ q ∈ c.packages, q.id = p.id ∧ q.latest = p.latest) ∨
      p.id = c.nextPackage ∧ p.latest = none)
  /-- releases are removed by their numbers -/
  | fewer (keep : Nat → Bool) (hreleases : d.releases = c.releases.filter fun x => keep x.id)
    (hpackages : ∀ p ∈ d.packages, p ∈ c.packages)
  /-- a release is added to a package, which remembers its version -/
  | more (x : Release) (hid : x.id = c.nextRelease) (hreleases : d.releases = c.releases ++ [x])
    (hlatest : ∀ p ∈ d.packages, p.id = x.package → p.latest = some x.version)
    (hothers : ∀ p ∈ d.packages, p.id ≠ x.package → (∃ q ∈ c.packages, q.id = p.id ∧ q.latest = p.latest) ∨
      p.id = c.nextPackage ∧ p.latest = none)

theorem Revision.refl (c : Catalog) : Revision c c :=
  .same id (fun _ => ⟨rfl, rfl, rfl⟩) (map_id _).symm fun p hp => .inl ⟨p, hp, rfl, rfl⟩

theorem Revision.of_eq {c} (hreleases : d.releases = c.releases) (hpackages : d.packages = c.packages) :
    Revision c d := by
  refine .same id (fun _ => ⟨rfl, rfl, rfl⟩) (hreleases.trans (map_id _).symm) fun p hp => ?_
  exact .inl ⟨p, hpackages ▸ hp, rfl, rfl⟩

theorem Change.revision {c d r status} (h : Change c r status d) : Revision c d := by
  -- what is known of a package after one has been entered
  have hentered : ∀ a, ∀ p ∈ (c.enter a).1.packages,
      (∃ q ∈ c.packages, q.id = p.id ∧ q.latest = p.latest) ∨ p.id = c.nextPackage ∧ p.latest = none := by
    intro a p hp
    rcases Catalog.mem_enter_packages.1 hp with hp | ⟨-, rfl⟩
    · exact .inl ⟨p, hp, rfl, rfl⟩
    · exact .inr ⟨rfl, rfl⟩
  cases h with
  | nothing => exact .refl c
  | renewed | emptied => exact .of_eq rfl rfl
  | counted _ =>
    refine .same _ (fun x => ?_) rfl fun p hp => ?_
    · split <;> exact ⟨rfl, rfl, rfl⟩
    · obtain ⟨q, hq, rfl⟩ := mem_map.1 hp
      refine .inl ⟨q, hq, ?_⟩
      split <;> exact ⟨rfl, rfl⟩
  | @entered a _ _ =>
    exact .same id (fun _ => ⟨rfl, rfl, rfl⟩) ((Catalog.enter_releases a).trans (map_id _).symm) (hentered a)
  | @released a _ _ =>
    refine .more (c.newRelease a) rfl (Catalog.release_releases a) ?_ ?_
    · intro p hp hid
      obtain ⟨q, -, rfl⟩ := mem_map.1 hp
      split at hid
      · next hq =>
        rw [if_pos hq]
        rfl
      · next hq => exact absurd hid hq
    · intro p hp hid
      rw [Catalog.release_packages] at hp
      obtain ⟨q, hq, rfl⟩ := mem_map.1 hp
      split at hid
      · next heq => exact absurd heq hid
      · next hne =>
        rw [if_neg hne]
        exact hentered a q hq
  | @withdrawn x _ _ | @unfiled x _ _ => exact .fewer (fun id => id != x.id) rfl fun p hp => hp
  | @cleared p _ _ =>
    rw [Catalog.dropReleases_eq]
    exact .fewer (fun id => (c.releasesOf p).all fun x => id != x.id) rfl fun q hq => mem_of_mem_filter hq

namespace Catalog

variable {c : Catalog} {package : Nat}

theorem after_revision (c : Catalog) (event : Event) : Revision c (c.after event) := by
  cases event with
  | users users | archives objects => exact .of_eq rfl rfl
  | request r =>
    obtain ⟨status, hchange⟩ := c.after_change r
    exact hchange.revision

/-- Nothing is added if every release was there. -/
theorem gains_eq_false (h : ∀ x ∈ (c.after event).releases, ∃ y ∈ c.releases, y.id = x.id) :
    c.gains package event = false := by
  refine Bool.eq_false_iff.2 fun hgains => ?_
  obtain ⟨x, hx, hnew⟩ := any_eq_true.1 hgains
  obtain ⟨y, hy, hid⟩ := h x hx
  simp only [Bool.and_eq_true, all_eq_true, bne_iff_ne] at hnew
  exact hnew.2 y hy hid

theorem losesNewest_eq_false (h : c.removed event = []) : c.losesNewest package event = false := by
  simp [losesNewest, h]

theorem losesNewest_iff {keep : Nat → Bool} (h : (c.after event).releases = c.releases.filter fun x => keep x.id) :
    c.losesNewest package event = true ↔ ∃ x, c.newest? package = some x ∧ keep x.id = false := by
  rw [losesNewest, removed_eq_filter h, Option.any_eq_true]
  constructor
  · rintro ⟨x, hx, hany⟩
    obtain ⟨y, hy, hid⟩ := any_eq_true.1 hany
    obtain ⟨-, hgone⟩ := mem_filter.1 hy
    rw [beq_iff_eq.1 hid] at hgone
    exact ⟨x, hx, by simpa using hgone⟩
  · rintro ⟨x, hx, hgone⟩
    refine ⟨x, hx, any_eq_true.2 ⟨x, mem_filter.2 ⟨(newest?_mem hx).1, ?_⟩, beq_self_eq_true _⟩⟩
    rw [hgone]
    rfl

/-- A release with a new number is gained by its package. -/
theorem gains_iff (hc : Orderly c) (hid : x.id = c.nextRelease)
    (hreleases : (c.after event).releases = c.releases ++ [x]) :
    c.gains package event = (x.package == package) := by
  rw [gains, hreleases]
  have hold : (c.releases.any fun y => y.package == package && c.releases.all (·.id != y.id)) = false := by
    refine any_eq_false.2 fun y hy hnew => ?_
    simp only [Bool.and_eq_true, all_eq_true, bne_iff_ne] at hnew
    exact hnew.2 y hy rfl
  have hnew : c.releases.all (·.id != x.id) = true := by
    refine all_eq_true.2 fun y hy => bne_iff_ne.2 fun heq => ?_
    have hlt := hc.freshRelease y hy
    omega
  simp [hold, hnew]

/-- What is known of one package, given by its number: whether it is up to date, if it is there. One that is still to
come counts as up to date. -/
structure Known (c : Catalog) (package : Nat) (b : Bool) : Prop where
  upToDate : ∀ p ∈ c.packages, p.id = package → (c.UpToDate p ↔ b = true)
  toCome : c.nextPackage ≤ package → b = true

/-- A package that is as it was, or new, and has the newest release that it had. -/
theorem Known.carry (h : c.Known package b) (hc : Orderly c) (hd : Orderly d)
    (hp : (∃ q ∈ c.packages, q.id = p.id ∧ q.latest = p.latest) ∨ p.id = c.nextPackage ∧ p.latest = none)
    (hid : p.id = package) (hnewest : (d.newest? package).map (·.version) = (c.newest? package).map (·.version)) :
    d.UpToDate p ↔ b = true := by
  subst hid
  rw [upToDate_iff hd, hnewest]
  rcases hp with ⟨q, hq, hid, hlatest⟩ | ⟨hnew, hlatest⟩
  · rw [← hlatest, ← hid, ← upToDate_iff hc]
    exact h.upToDate q hq hid
  · have hle := le_of_eq hnew.symm
    simp [hlatest, newest?_eq_none hc hle, h.toCome hle]

/-- Where the newest release of a package goes, the package remembers a version that none of its releases has. -/
theorem not_upToDate_of_gone (hc : Orderly c) (hp : p ∈ c.packages)
    (hx : c.newest? p.id = some x) (hrest : ∀ y ∈ d.releasesOf p, y ∈ c.releasesOf p ∧ y ≠ x) : ¬ d.UpToDate p := by
  intro hcurrent
  obtain ⟨v, hv, hle⟩ := (hc.held_by hp (mem_of_getLast? hx)).latest
  obtain ⟨⟨y, hy, hversion⟩, -⟩ := (hcurrent v).1 hv
  obtain ⟨hy, hne⟩ := hrest y hy
  have hlt := (lt_newest? hc hx hy).resolve_left hne
  rw [hversion] at hlt
  rcases hle with heq | hlt'
  · rw [heq] at hlt
    exact Version.not_lt_self v hlt
  · exact Version.not_lt_self v (Version.lt_trans hlt hlt')

/-- Where releases keep their packages and versions, so does the newest one. -/
theorem newest?_map {g} (hg : ∀ x, (g x).id = x.id ∧ (g x).package = x.package ∧ (g x).version = x.version)
    (hreleases : d.releases = c.releases.map g) :
    (d.newest? package).map (·.version) = (c.newest? package).map (·.version) := by
  have hsame : ((fun x => x.package == package) ∘ g : Release → Bool) = fun x => x.package == package := by
    funext x
    simp [(hg x).2.1]
  rw [newest?, hreleases, filter_map, hsame, getLast?_map, Option.map_map]
  congr 1
  funext x
  exact (hg x).2.2

theorem newest?_filter {keep} (hreleases : d.releases = c.releases.filter keep)
    (hkeep : ∀ x, c.newest? package = some x → keep x = true) : d.newest? package = c.newest? package := by
  rw [newest?, hreleases, filter_filter]
  simp only [Bool.and_comm _ (keep _)]
  rw [← filter_filter]
  cases hnewest : c.newest? package with
  | none =>
    have hnone : c.releases.filter (·.package == package) = [] := getLast?_eq_none_iff.1 hnewest
    rw [hnone, filter_nil, getLast?_nil]
  | some x =>
    obtain ⟨front, hfront⟩ := getLast?_eq_some_iff.1 hnewest
    rw [hfront, filter_append, filter_cons_of_pos (hkeep x hnewest), filter_nil, getLast?_concat]

theorem newest?_append (hreleases : d.releases = c.releases ++ [x]) :
    d.newest? package = if x.package = package then some x else c.newest? package := by
  rw [newest?, hreleases]
  split
  · next h => simp [h]
  · next h => simp [h, newest?]

/-- One event carries on what is known of a package. -/
theorem Known.after (h : c.Known package b) (hc : Orderly c) (event : Event) :
    (c.after event).Known package (c.currentAfter package b event) := by
  have hd := hc.after event
  refine ⟨fun p hp hid => ?_, fun hnew => ?_⟩
  · cases c.after_revision event with
    | same g hg hreleases hpackages =>
      have hgains : c.gains package event = false := by
        refine gains_eq_false fun x hx => ?_
        rw [hreleases] at hx
        obtain ⟨y, hy, rfl⟩ := mem_map.1 hx
        exact ⟨y, hy, (hg y).1.symm⟩
      have hkept : c.removed event = [] := by
        refine removed_eq_nil fun x hx => ?_
        rw [hreleases]
        exact ⟨g x, mem_map_of_mem hx, (hg x).1⟩
      rw [currentAfter, hgains, losesNewest_eq_false hkept]
      exact h.carry hc hd (hpackages p hp) hid (newest?_map hg hreleases)
    | fewer keep hreleases hpackages =>
      have hgains : c.gains package event = false := by
        refine gains_eq_false fun x hx => ?_
        rw [hreleases] at hx
        exact ⟨x, mem_of_mem_filter hx, rfl⟩
      rw [currentAfter, hgains]
      cases hloses : c.losesNewest package event with
      | true =>
        obtain ⟨x, hx, hgone⟩ := (losesNewest_iff hreleases).1 hloses
        subst hid
        simp only [Bool.false_eq_true, if_false, if_true, iff_false]
        refine not_upToDate_of_gone hc (hpackages p hp) hx fun y hy => ?_
        obtain ⟨hy, hpackage⟩ := mem_filter.1 hy
        rw [hreleases] at hy
        obtain ⟨hy, hkeep⟩ := mem_filter.1 hy
        refine ⟨mem_filter.2 ⟨hy, hpackage⟩, ?_⟩
        rintro rfl
        rw [hgone] at hkeep
        cases hkeep
      | false =>
        refine h.carry hc hd (.inl ⟨p, hpackages p hp, rfl, rfl⟩) hid (congrArg _ (newest?_filter hreleases ?_))
        intro x hx
        by_contra hgone
        have htrue := (losesNewest_iff hreleases).2 ⟨x, hx, Bool.eq_false_iff.2 hgone⟩
        rw [hloses] at htrue
        cases htrue
    | more x hxid hreleases hlatest hothers =>
      have hkept : c.removed event = [] := by
        refine removed_eq_nil fun y hy => ?_
        rw [hreleases]
        exact ⟨y, mem_append_left _ hy, rfl⟩
      rw [currentAfter, gains_iff hc hxid hreleases, losesNewest_eq_false hkept]
      by_cases hpackage : x.package = package
      · rw [upToDate_iff hd, hlatest p hp (hid.trans hpackage.symm), hid, newest?_append hreleases]
        simp [hpackage]
      · have hother : p.id ≠ x.package := fun heq => hpackage (heq.symm.trans hid)
        rw [beq_eq_false_iff_ne.2 hpackage]
        refine h.carry hc hd (hothers p hp hother) hid ?_
        rw [newest?_append hreleases, if_neg hpackage]
  · have hle : c.nextPackage ≤ package := le_trans (c.nextPackage_le_after event) hnew
    rw [currentAfter, losesNewest, newest?_eq_none hc hle, h.toCome hle]
    simp

theorem Known.afterAll (h : c.Known package b) (hc : Orderly c) (events : List Event) :
    (c.afterAll events).Known package (c.current package b events) := by
  induction events generalizing c b with
  | nil => exact h
  | cons event events ih => exact ih (h.after hc event) (hc.after event)

end Catalog

/-- The version that a package remembers is the greatest of its releases exactly if its newest release was not removed
since a release was last added to it, whatever requests came. -/
theorem latest_current_iff (events : List Event) (p : Package)
    (hp : p ∈ ((Catalog.start []).afterAll events).packages) :
    ((Catalog.start []).afterAll events).UpToDate p ↔ (Catalog.start []).current p.id true events = true := by
  have hstart : (Catalog.start []).Known p.id true := ⟨fun q hq => absurd hq not_mem_nil, fun _ => rfl⟩
  exact (hstart.afterAll (.start []) events).upToDate p hp rfl

/-- The user of `publishedCatalog` removes its release. -/
def removal : Request := { failedRemoval with storeDown := false }

/-- The user uploads another release of the package. -/
def laterUpload : Request :=
  { keylessUpload with
    key := some "a"
    file := some ⟨"f", .archive [("package.toml",
        "[package]\nname = \"pkg\"\nversion = \"2\"\ndescription = \"d\"\n".toUTF8),
      ("README.md", "r".toUTF8), ("main.eryx", "x".toUTF8)]⟩ }

/-- A user uploads a release, removes it and uploads another one. -/
def republication : List Event :=
  [.users [⟨1, "ann", some "a", false, false⟩], .request { keylessUpload with key := some "a" }, .request removal,
    .request laterUpload]

/-- A package whose only release was removed is up to date again with the next one. -/
theorem latest_current_after_republication : ∃ p, p ∈ ((Catalog.start []).afterAll republication).packages ∧
      ((Catalog.start []).afterAll republication).UpToDate p := by
  have heval : ((Catalog.start []).afterAll republication).packages.map (·.id) = [1] ∧
      (Catalog.start []).current 1 true republication = true := by decide +kernel
  obtain ⟨p, hp, hid⟩ := exists_of_mem_map (heval.1 ▸ mem_singleton_self 1)
  refine ⟨p, hp, (latest_current_iff republication p hp).2 ?_⟩
  rw [hid]
  exact heval.2

/-- A package whose only release was removed goes on remembering its version. -/
theorem removed_version_remembered : (publishedCatalog.after (.request removal)).releases = [] ∧
    ∃ p ∈ (publishedCatalog.after (.request removal)).packages,
      p.latest.isSome = true ∧ ¬ (publishedCatalog.after (.request removal)).UpToDate p := by
  have heval : (publishedCatalog.after (.request removal)).releases.length = 0 ∧
      (publishedCatalog.after (.request removal)).packages.map (·.latest.isSome) = [true] := by decide +kernel
  have hrows := List.length_eq_zero_iff.1 heval.1
  obtain ⟨p, hp, hlatest⟩ := exists_of_mem_map (heval.2 ▸ mem_singleton_self true)
  refine ⟨hrows, p, hp, hlatest, fun hcurrent => ?_⟩
  obtain ⟨v, hv⟩ := Option.isSome_iff_exists.1 hlatest
  obtain ⟨⟨x, hx, -⟩, -⟩ := (hcurrent v).1 hv
  rw [Catalog.releasesOf, hrows] at hx
  cases hx

end SmallScript.Registry
