import Mathlib.Data.List.Nodup
import Mathlib.Data.List.Lex
import SmallScript.Proofs.Registry.Changes

/-!
# The order of releases

The releases of a package have rising versions, in the order in which they were added, and none is after the
latest version that the package remembers. This holds in every state that requests lead to, whatever happens
to the archives in between, `releases_ascend`.
-/

namespace SmallScript.Registry

open Data (Table)
open Packages List Nat
open Text (lower isIdentifier slash_notMem_of_isIdentifier)

variable {p : Package}

/-! ## Paths -/

/-- The path of the archive of a version. -/
def pathOf (name : String) (version : Version) : String := s!"{name}/{version.text}.zip"

theorem eq_of_append_slash {x x' y y'} (hx : '/' ∉ x) (hx' : '/' ∉ x')
    (h : x ++ '/' :: y = x' ++ '/' :: y') : x = x' ∧ y = y' := by
  have hfront x y (hx : '/' ∉ x) : (x ++ '/' :: y).takeWhile (· != '/') = x := by
    have hall : ∀ c ∈ x, (c != '/') = true := fun c hc => by simpa using fun heq : c = '/' => hx (heq ▸ hc)
    rw [takeWhile_append_of_pos hall]
    simp
  have heq : x = x' := by rw [← hfront x y hx, h, hfront x' y' hx']
  subst heq
  exact ⟨rfl, (cons.inj (append_cancel_left h)).2⟩

/-- The path tells the name and the version. -/
theorem pathOf_inj {name name' v v'} (hname : '/' ∉ name.toList) (hname' : '/' ∉ name'.toList)
    (hv : v.Normal) (hv' : v'.Normal) (h : pathOf name v = pathOf name' v') : name = name' ∧ v = v' := by
  have hletters name v : (pathOf name v).toList = name.toList ++ '/' :: (v.text.toList ++ ".zip".toList) := by
    simp only [pathOf, String.toList_append, append_assoc]
    rfl
  have hlists := congrArg String.toList h
  rw [hletters, hletters] at hlists
  obtain ⟨hlist, htext⟩ := eq_of_append_slash hname hname' hlists
  exact ⟨String.toList_inj.1 hlist, hv.eq_of_text hv' (String.toList_inj.1 (append_cancel_right htext))⟩

/-! ## The invariant -/

/-- A release that belongs to a package. -/
structure Holds (p : Package) (r : Release) : Prop where
  package : r.package = p.id
  normal : r.version.Normal
  path : r.path = pathOf p.name r.version
  latest : ∃ v, p.latest = some v ∧ (r.version = v ∨ r.version < v)

/-- Later releases have later numbers, and within a package later versions. -/
def Precedes (a b : Release) : Prop := a.id < b.id ∧ (a.package = b.package → a.version < b.version)

/-- The rows of a catalogue are in order. -/
structure Orderly (c : Catalog) : Prop where
  names : (c.packages.map (·.name)).Nodup
  ids : (c.packages.map (·.id)).Nodup
  fresh : ∀ p ∈ c.packages, p.id < c.nextPackage
  spelled : ∀ p ∈ c.packages, lower p.name = p.name ∧ isIdentifier p.name.toList = true
  held : ∀ r ∈ c.releases, ∃ p ∈ c.packages, Holds p r
  order : c.releases.Pairwise Precedes
  freshRelease : ∀ r ∈ c.releases, r.id < c.nextRelease

theorem mem_of_package? {c : Catalog} {name} (h : c.package? name = some p) : p ∈ c.packages ∧ p.name = name :=
  ⟨mem_of_find?_eq_some h, by simpa using find?_some h⟩

theorem str_of_named? {c : Catalog} {value} (h : c.named? value = some p) :
    ∃ text, value = .str text ∧ c.package? text = some p := by
  cases value with
  | str text => exact ⟨text, rfl, h⟩
  | _ => cases h

namespace Orderly

variable {c : Catalog}

theorem start (users : List User) : Orderly (.start users) where
  names := .nil
  ids := .nil
  fresh := fun _ h => absurd h not_mem_nil
  spelled := fun _ h => absurd h not_mem_nil
  held := fun _ h => absurd h not_mem_nil
  order := .nil
  freshRelease := fun _ h => absurd h not_mem_nil

theorem package_unique (h : Orderly c) {q} (hp : p ∈ c.packages) (hq : q ∈ c.packages) (hid : p.id = q.id) : p = q :=
  inj_on_of_nodup_map h.ids hp hq hid

/-- Users and archives do not matter. -/
theorem congr (h : Orderly c) {d} (hpackages : d.packages = c.packages) (hreleases : d.releases = c.releases)
    (hnext : d.nextPackage = c.nextPackage) (hnext' : d.nextRelease = c.nextRelease) : Orderly d where
  names := hpackages ▸ h.names
  ids := hpackages ▸ h.ids
  fresh := hpackages ▸ hnext ▸ h.fresh
  spelled := hpackages ▸ h.spelled
  held := hpackages ▸ hreleases ▸ h.held
  order := hreleases ▸ h.order
  freshRelease := hreleases ▸ hnext' ▸ h.freshRelease

/-! ## Steps -/

/-- A package may change as long as it keeps its number, its name and its releases. -/
theorem modifyPackage (h : Orderly c) {id f} (hid : ∀ p, (f p).id = p.id) (hname : ∀ p, (f p).name = p.name)
    (hheld : ∀ p ∈ c.packages, p.id = id → ∀ r ∈ c.releases, Holds p r → Holds (f p) r) :
    Orderly (c.modifyPackage id f) := by
  have hid' : ∀ p, (if p.id = id then f p else p).id = p.id := fun p => by split <;> simp [hid]
  have hname' : ∀ p, (if p.id = id then f p else p).name = p.name := fun p => by split <;> simp [hname]
  refine ⟨?_, ?_, ?_, ?_, ?_, h.order, h.freshRelease⟩
  · simpa [Catalog.modifyPackage, map_map, Function.comp_def, hname'] using h.names
  · simpa [Catalog.modifyPackage, map_map, Function.comp_def, hid'] using h.ids
  · intro q hq
    obtain ⟨p, hp, rfl⟩ := mem_map.1 hq
    rw [hid']
    exact h.fresh p hp
  · intro q hq
    obtain ⟨p, hp, rfl⟩ := mem_map.1 hq
    rw [hname']
    exact h.spelled p hp
  · intro r hr
    obtain ⟨p, hp, hold⟩ := h.held r hr
    refine ⟨_, mem_map_of_mem hp, ?_⟩
    split
    · next heq => exact hheld p hp heq r hr hold
    · exact hold

/-- A release may change as long as it keeps its number, its package, its version and its path. -/
theorem mapReleases (h : Orderly c) {g}
    (hkeep : ∀ r, (g r).id = r.id ∧ (g r).package = r.package ∧ (g r).version = r.version ∧ (g r).path = r.path) :
    Orderly { c with releases := c.releases.map g } := by
  refine ⟨h.names, h.ids, h.fresh, h.spelled, ?_, ?_, ?_⟩
  · intro s hs
    obtain ⟨r, hr, rfl⟩ := mem_map.1 hs
    obtain ⟨-, hpackage, hversion, hpath⟩ := hkeep r
    obtain ⟨p, hp, hold⟩ := h.held r hr
    refine ⟨p, hp, ?_, ?_, ?_, ?_⟩
    · rw [hpackage, hold.package]
    · rw [hversion]
      exact hold.normal
    · rw [hpath, hversion, hold.path]
    · rw [hversion]
      exact hold.latest
  · refine pairwise_map.2 (h.order.imp fun {a b} hab => ?_)
    obtain ⟨ha, ha', ha'', -⟩ := hkeep a
    obtain ⟨hb, hb', hb'', -⟩ := hkeep b
    rwa [Precedes, ha, ha', ha'', hb, hb', hb'']
  · intro s hs
    obtain ⟨r, hr, rfl⟩ := mem_map.1 hs
    rw [(hkeep r).1]
    exact h.freshRelease r hr

theorem countDownload (h : Orderly c) (r : Release) : Orderly (c.countDownload r) := by
  refine modifyPackage (mapReleases h fun s => ?_) (fun _ => rfl) (fun _ => rfl) fun p _ _ s _ hold => ?_
  · split <;> exact ⟨rfl, rfl, rfl, rfl⟩
  · exact ⟨hold.package, hold.normal, hold.path, hold.latest⟩

theorem addPackage (h : Orderly c) {name author description}
    (hnew : (((c.addPackage name author description).packages).map (·.name)).Nodup)
    (hname : lower name = name ∧ isIdentifier name.toList = true) :
    Orderly (c.addPackage name author description) := by
  refine ⟨hnew, ?_, ?_, ?_, ?_, h.order, h.freshRelease⟩
  · rw [Catalog.addPackage, map_append]
    refine nodup_append.2 ⟨h.ids, nodup_singleton _, ?_⟩
    intro id hid id' hid' heq
    obtain ⟨p, hp, rfl⟩ := mem_map.1 hid
    have hlt := h.fresh p hp
    rw [heq, mem_singleton.1 hid'] at hlt
    exact lt_irrefl _ hlt
  · intro p hp
    rcases mem_append.1 hp with hp | hp
    · exact lt_succ_of_lt (h.fresh p hp)
    · rw [mem_singleton.1 hp]
      exact lt_succ_self _
  · intro p hp
    rcases mem_append.1 hp with hp | hp
    · exact h.spelled p hp
    · rw [mem_singleton.1 hp]
      exact hname
  · intro r hr
    obtain ⟨p, hp, hold⟩ := h.held r hr
    exact ⟨p, mem_append_left _ hp, hold⟩

/-- A row is added behind the releases that are there. -/
theorem appendRelease (h : Orderly c) {r} (hp : p ∈ c.packages) (hold : Holds p r)
    (hid : r.id = c.nextRelease) (hlast : ∀ s ∈ c.releases, s.package = r.package → s.version < r.version) :
    Orderly { c with releases := c.releases ++ [r], nextRelease := c.nextRelease + 1 } := by
  refine ⟨h.names, h.ids, h.fresh, h.spelled, ?_, ?_, ?_⟩
  · intro s hs
    rcases mem_append.1 hs with hs | hs
    · exact h.held s hs
    · rw [mem_singleton.1 hs]
      exact ⟨p, hp, hold⟩
  · refine pairwise_append.2 ⟨h.order, pairwise_singleton _ _, fun s hs t ht => ?_⟩
    rw [mem_singleton.1 ht]
    exact ⟨hid ▸ h.freshRelease s hs, hlast s hs⟩
  · intro s hs
    rcases mem_append.1 hs with hs | hs
    · exact lt_succ_of_lt (h.freshRelease s hs)
    · rw [mem_singleton.1 hs, hid]
      exact lt_succ_self _

theorem addRelease (h : Orderly c) {version readme path} (hp : p ∈ c.packages)
    (hnormal : version.Normal) (hpath : path = pathOf p.name version)
    (hlatest : ∀ latest, p.latest = some latest → latest < version) :
    Orderly (c.addRelease p.id version readme path) := by
  -- all releases of the package are before the new version
  have hbefore : ∀ r, Holds p r → r.version < version := by
    intro r hold
    obtain ⟨v, hv, rfl | hlt⟩ := hold.latest
    · exact hlatest _ hv
    · exact Version.lt_trans hlt (hlatest v hv)
  have hmodified : Orderly (c.modifyPackage p.id fun q => { q with latest := some version }) := by
    refine h.modifyPackage (fun _ => rfl) (fun _ => rfl) fun q hq hid r _ hold => ?_
    rw [h.package_unique hq hp hid] at hold ⊢
    exact ⟨hold.package, hold.normal, hold.path, version, rfl, .inr (hbefore r hold)⟩
  have hmem : { p with latest := some version } ∈
      (c.modifyPackage p.id fun q => { q with latest := some version }).packages :=
    mem_map.2 ⟨p, hp, if_pos rfl⟩
  refine hmodified.appendRelease hmem ⟨rfl, hnormal, hpath, version, rfl, .inl rfl⟩ rfl fun s hs hpackage => ?_
  obtain ⟨q, hq, hold⟩ := h.held s hs
  rw [h.package_unique hq hp (hold.package ▸ hpackage)] at hold
  exact hbefore s hold

theorem sublist (h : Orderly c) {releases} (hsub : releases.Sublist c.releases) :
    Orderly { c with releases := releases } :=
  ⟨h.names, h.ids, h.fresh, h.spelled, fun r hr => h.held r (hsub.subset hr), h.order.sublist hsub,
    fun r hr => h.freshRelease r (hsub.subset hr)⟩

theorem dropPackage (h : Orderly c) (hnone : ∀ r ∈ c.releases, r.package ≠ p.id) : Orderly (c.dropPackage p) := by
  have hsub : (c.dropPackage p).packages.Sublist c.packages := filter_sublist
  refine ⟨h.names.sublist (hsub.map _), h.ids.sublist (hsub.map _), fun q hq => h.fresh q (hsub.subset hq),
    fun q hq => h.spelled q (hsub.subset hq), ?_, h.order, h.freshRelease⟩
  intro r hr
  obtain ⟨q, hq, hold⟩ := h.held r hr
  refine ⟨q, mem_filter.2 ⟨hq, ?_⟩, hold⟩
  have hne : q.id ≠ p.id := hold.package ▸ hnone r hr
  simpa using hne

/-- A package that is entered is the one that gets the release. -/
theorem enter (h : Orderly c) {user s a} (ha : Catalog.Admitted c user s a)
    (hnames : ((c.enter a).1.packages.map (·.name)).Nodup) :
    Orderly (c.enter a).1 ∧ ∃ p ∈ (c.enter a).1.packages, p.id = (c.enter a).2 ∧ p.name = a.name ∧
      ∀ latest, p.latest = some latest → latest < s.version := by
  have hnew := fun hp => Catalog.package?_eq_none_of_nodup hp hnames
  unfold Catalog.enter at hnames ⊢
  split
  · next p hp =>
    obtain ⟨text, hs, hfound⟩ := str_of_named? (ha.package ▸ hp)
    obtain ⟨hmem, hname⟩ := mem_of_package? hfound
    have hlower : a.name = lower p.name := packageNameOf_str (hname ▸ hs ▸ ha.name)
    exact ⟨h, p, hmem, rfl, ((h.spelled p hmem).1 ▸ hlower).symm,
      fun latest => latest_lt_of_checkUpdate (ha.update p hp)⟩
  · next hp =>
    rw [hp] at hnames
    refine ⟨h.addPackage hnames (packageNameOf_ok ha.name), _, mem_append_right _ (mem_singleton_self _), ?_,
      rfl, fun latest hlatest => ?_⟩
    · rw [hnew hp]
      rfl
    · cases hlatest

/-- Rows of releases are dropped one after the other. -/
theorem dropReleases (h : Orderly c) (rs : List Release) :
    Orderly (c.dropReleases rs) ∧ ∀ s ∈ (c.dropReleases rs).releases, s ∈ c.releases ∧ ∀ r ∈ rs, s.id ≠ r.id := by
  induction rs generalizing c with
  | nil => exact ⟨h, fun s hs => ⟨hs, fun _ hr => absurd hr not_mem_nil⟩⟩
  | cons r rs ih =>
    have hdrop : Orderly ((c.dropRelease r).dropObject r.path) := (h.sublist filter_sublist).congr rfl rfl rfl rfl
    obtain ⟨horderly, hmem⟩ := ih hdrop
    refine ⟨horderly, fun s hs => ?_⟩
    obtain ⟨hs, hne⟩ := hmem s hs
    obtain ⟨hs, hid⟩ := mem_filter.1 hs
    exact ⟨hs, forall_mem_cons.2 ⟨by simpa using hid, hne⟩⟩

theorem clear (h : Orderly c) (p : Package) : Orderly ((c.dropReleases (c.releasesOf p)).dropPackage p) := by
  obtain ⟨horderly, hmem⟩ := h.dropReleases (c.releasesOf p)
  refine horderly.dropPackage fun r hr hpackage => ?_
  obtain ⟨hr, hne⟩ := hmem r hr
  exact hne r (mem_filter.2 ⟨hr, by simpa using hpackage⟩) rfl

theorem names_release (a : Addition) (package : Nat) :
    (c.release a package).packages.map (·.name) = c.packages.map (·.name) := by
  simp only [Catalog.release, Catalog.addRelease, Catalog.modifyPackage, map_map]
  refine map_congr_left fun p _ => ?_
  simp only [Function.comp_apply]
  split <;> rfl

/-- What requests do keeps the rows in order, where no two packages get the same name. -/
theorem change (h : Orderly c) {r status d} (hchange : Change c r status d)
    (hnames : (d.packages.map (·.name)).Nodup) : Orderly d := by
  cases hchange with
  | nothing => exact h
  | counted _ => exact h.countDownload _
  | entered ha _ =>
    obtain ⟨-, user, s, -, -, ha⟩ := ha
    exact (h.enter (Catalog.admitted_of_admit ha) hnames).1
  | @released a ha _ =>
    obtain ⟨-, user, s, -, hs, ha⟩ := ha
    have hadmitted := Catalog.admitted_of_admit ha
    have hentered : ((c.enter a).1.packages.map (·.name)).Nodup := by
      rwa [names_release] at hnames
    obtain ⟨horderly, p, hp, hid, hname, hlatest⟩ := h.enter hadmitted hentered
    have hstored : Orderly ((c.enter a).1.putObject a.path a.submission.archive) := horderly.congr rfl rfl rfl rfl
    rw [← hid]
    refine hstored.addRelease hp ?_ ?_ ?_
    · rw [hadmitted.submission]
      exact Submission.normal_ofUpload hs
    · rw [hname]
      rfl
    · rw [hadmitted.submission]
      exact hlatest
  | withdrawn _ _ => exact (h.sublist filter_sublist).congr rfl rfl rfl rfl
  | unfiled _ _ => exact h.sublist filter_sublist
  | cleared _ _ => exact h.clear _
  | emptied _ _ | renewed _ _ => exact h.congr rfl rfl rfl rfl

end Orderly

/-! ## Runs -/

/-- What happens to a catalogue: a request comes, the users change, or the archives do. -/
inductive Event where
  | request (r : Request)
  | users (users : List User)
  | archives (objects : Table Archive)

/-- A catalogue after an event. No two packages may have the same name: a request that would enter a second one
is taken back. -/
def Catalog.after (c : Catalog) : Event → Catalog
  | .request r => if ((c.serve r).2.packages.map (·.name)).Nodup then (c.serve r).2 else c
  | .users users => { c with users := users }
  | .archives objects => { c with objects := objects }

def Catalog.afterAll (c : Catalog) (events : List Event) : Catalog := events.foldl Catalog.after c

theorem Orderly.after {c} (h : Orderly c) (event : Event) : Orderly (c.after event) := by
  cases event with
  | request r =>
    rw [Catalog.after]
    split
    · next hnames => exact h.change (c.outcome_change r) hnames
    · exact h
  | users users | archives objects => exact h.congr rfl rfl rfl rfl

theorem Orderly.afterAll {c} (h : Orderly c) (events : List Event) : Orderly (c.afterAll events) := by
  induction events generalizing c with
  | nil => exact h
  | cons event events ih => exact ih (h.after event)

/-! ## What follows -/

namespace Orderly

variable {c : Catalog}

theorem releasesOf (h : Orderly c) (p : Package) :
    (c.releasesOf p).Pairwise fun a b => a.id < b.id ∧ a.version < b.version := by
  refine (h.order.filter _).imp_of_mem fun {a b} ha hb hab => ⟨hab.1, hab.2 ?_⟩
  have ha' := (mem_filter.1 ha).2
  have hb' := (mem_filter.1 hb).2
  simp only [beq_iff_eq] at ha' hb'
  rw [ha', hb']

theorem held_by (h : Orderly c) {r} (hp : p ∈ c.packages) (hr : r ∈ c.releasesOf p) : Holds p r := by
  obtain ⟨hr, hpackage⟩ := mem_filter.1 hr
  obtain ⟨q, hq, hold⟩ := h.held r hr
  have hid : r.package = p.id := by simpa using hpackage
  rwa [h.package_unique hq hp (hold.package ▸ hid)] at hold

theorem releaseIds (h : Orderly c) : (c.releases.map (·.id)).Nodup :=
  pairwise_map.2 (h.order.imp fun hab => Nat.ne_of_lt hab.1)

theorem paths (h : Orderly c) : (c.releases.map (·.path)).Nodup := by
  refine pairwise_map.2 (h.order.imp_of_mem fun {a b} ha hb hab heq => ?_)
  obtain ⟨p, hp, hold⟩ := h.held a ha
  obtain ⟨q, hq, hold'⟩ := h.held b hb
  rw [hold.path, hold'.path] at heq
  obtain ⟨hname, hversion⟩ := pathOf_inj (slash_notMem_of_isIdentifier (h.spelled p hp).2)
    (slash_notMem_of_isIdentifier (h.spelled q hq).2) hold.normal hold'.normal heq
  have hpq : p = q := inj_on_of_nodup_map h.names hp hq hname
  have hpackage : a.package = b.package := by rw [hold.package, hold'.package, hpq]
  exact Version.key_ne_of_lt (hab.2 hpackage) (congrArg _ hversion)

end Orderly

/-- What the rows of releases look like from outside. -/
structure Ascending (c : Catalog) : Prop where
  /-- in the order in which they were added, the releases of a package have rising versions -/
  order : ∀ p ∈ c.packages, (c.releasesOf p).Pairwise fun a b => a.id < b.id ∧ a.version < b.version
  /-- none is after the version that the package remembers -/
  latest : ∀ p ∈ c.packages, ∀ r ∈ c.releasesOf p,
    ∃ v, p.latest = some v ∧ (r.version = v ∨ r.version < v)
  /-- no two releases of a package have equal versions -/
  distinct : ∀ p ∈ c.packages, ((c.releasesOf p).map (·.version.key)).Nodup
  /-- every release is one of a package -/
  owned : ∀ r ∈ c.releases, ∃ p ∈ c.packages, r ∈ c.releasesOf p
  /-- no two releases have the same path -/
  paths : (c.releases.map (·.path)).Nodup

theorem Orderly.ascending {c} (h : Orderly c) : Ascending c where
  order := fun p _ => h.releasesOf p
  latest := fun _ hp _ hr => (h.held_by hp hr).latest
  distinct := fun p _ => pairwise_map.2 ((h.releasesOf p).imp fun hab => Version.key_ne_of_lt hab.2)
  owned := fun r hr => by
    obtain ⟨p, hp, hold⟩ := h.held r hr
    exact ⟨p, hp, mem_filter.2 ⟨hr, by simpa using hold.package⟩⟩
  paths := h.paths

/-- Whatever requests come, and whatever happens to the users and the archives in between, the releases stay in
order. -/
theorem releases_ascend (events : List Event) : Ascending ((Catalog.start []).afterAll events) :=
  ((Orderly.start []).afterAll events).ascending

end SmallScript.Registry
