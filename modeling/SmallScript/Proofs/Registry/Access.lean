import Mathlib.Data.List.Nodup
import SmallScript.Proofs.Registry.Releases

/-!
# Who may change what

A request acts for the user whose key it carries. Only the author of a package adds releases to it, only the
author or an administrator removes a release or a package, only the user renews a key, and a package keeps its
author, whatever the catalogue holds: `request_authorised`.

A request that names no user is turned away where a key is asked for, unless it carries no key and a user has
none either: then it acts for that user, `nameless_turned_away_iff`.
-/

namespace SmallScript.Registry

open List Catalog


variable {u : User} {removal : Removal} {a : Addition} {x : Release} {route : Route}
variable {p : Package}

/-- What is to be removed is the package or one of its releases. -/
def Removal.Within (c : Catalog) (p : Package) : Removal → Prop
  | .package q => q = p
  | .release x => x ∈ c.releasesOf p

namespace Catalog

variable {c : Catalog} {r : Request}

/-- The request acts for a user, who is not banned. -/
def ActsFor (c : Catalog) (r : Request) (u : User) : Prop := c.userWithKey? r.key = some u ∧ u.banned = false

theorem authenticate_eq_ok : c.authenticate r.key = .ok u ↔ c.ActsFor r u := by
  unfold authenticate ActsFor
  constructor
  · intro h
    split at h
    · cases h
    · next v hv =>
      split at h
      · cases h
      · next hbanned =>
        cases h
        exact ⟨hv, by simpa using hbanned⟩
  · rintro ⟨hu, hbanned⟩
    simp [hu, hbanned]

theorem ActsFor.mem (h : c.ActsFor r u) : u ∈ c.users := mem_of_find?_eq_some h.1

/-! ## Rights -/

theorem mem_of_packageOf {name} (h : c.packageOf name = .ok p) : p ∈ c.packages := by
  unfold packageOf at h
  split at h
  · cases h
  · split at h
    · split at h
      · next hp =>
        cases h
        exact (mem_of_package? hp).1
      · cases h
    · cases h

theorem within_of_removalOf {version} (h : c.removalOf p version = .ok removal) : removal.Within c p := by
  unfold removalOf at h
  split at h
  · cases h
    rfl
  · split at h
    · split at h
      · next hx =>
        cases h
        exact mem_of_find?_eq_some hx
      · cases h
    · cases h

/-- The user has the right to remove a package, or one of its releases. -/
def MayRemove (c : Catalog) (r : Request) (p : Package) : Prop :=
  p ∈ c.packages ∧ ∃ u, c.ActsFor r u ∧ (p.author = u.id ∨ u.admin = true)

theorem Deletes.mayRemove (h : c.Deletes r removal) : ∃ p, c.MayRemove r p ∧ removal.Within c p := by
  obtain ⟨-, doc, -, h⟩ := h
  rw [ Catalog.mayRemove] at h
  split at h
  · cases h
  · obtain ⟨name, -, h⟩ := exists_of_bind_ok h
    obtain ⟨version, -, h⟩ := exists_of_bind_ok h
    split at h
    · cases h
    · obtain ⟨u, hu, h⟩ := exists_of_bind_ok h
      obtain ⟨p, hp, h⟩ := exists_of_bind_ok h
      split at h
      · cases h
      · next hright =>
        have hright : p.author = u.id ∨ u.admin = true := by
          simp only [Bool.and_eq_true, decide_eq_true_eq, Bool.not_eq_true', not_and, Bool.not_eq_false] at hright
          exact or_iff_not_imp_left.2 hright
        exact ⟨p, ⟨mem_of_packageOf hp, u, authenticate_eq_ok.1 hu, hright⟩, within_of_removalOf h⟩

theorem author_of_checkUpdate {version} (h : checkUpdate u version p = .ok ()) : p.author = u.id := by
  unfold checkUpdate at h
  split at h
  · cases h
  · next hauthor => simpa using hauthor

theorem Uploads.author (h : c.Uploads r a) : ∃ u, c.ActsFor r u ∧ ∀ p, a.package = some p → p.author = u.id := by
  obtain ⟨-, u, s, hu, -, ha⟩ := h
  have hadmitted := admitted_of_admit ha
  refine ⟨u, authenticate_eq_ok.1 hu, ?_⟩
  intro p hp
  exact author_of_checkUpdate (hadmitted.update p hp)

theorem Uploads.package_mem (h : c.Uploads r a) (hp : a.package = some p) : p ∈ c.packages := by
  obtain ⟨-, u, s, -, -, ha⟩ := h
  have hadmitted := admitted_of_admit ha
  rw [hadmitted.package] at hp
  obtain ⟨text, -, hfound⟩ := str_of_named? hp
  exact (mem_of_package? hfound).1

/-! ## Rows before and after a request -/

/-- The catalogue has a release with the number and the package of another one. -/
def Lists (c : Catalog) (x : Release) : Prop := ∃ y ∈ c.releases, y.id = x.id ∧ y.package = x.package

theorem lists_of_mem (h : x ∈ c.releases) : c.Lists x := ⟨x, h, rfl, rfl⟩

end Catalog

namespace Change

variable {c d : Catalog} {r : Request} {status : Nat}

/-- A release is there before, or it is the one that is uploaded. -/
theorem release_before (h : Change c r status d) (hx : x ∈ d.releases) :
    c.Lists x ∨ ∃ a, c.Uploads r a ∧ x = c.newRelease a ∧ d = (c.enter a).1.release a (c.enter a).2 := by
  cases h with
  | nothing | renewed => exact .inl (lists_of_mem hx)
  | counted _ =>
    obtain ⟨y, hy, rfl⟩ := mem_map.1 hx
    refine .inl ⟨y, hy, ?_⟩
    split <;> exact ⟨rfl, rfl⟩
  | entered _ _ =>
    rw [enter_releases] at hx
    exact .inl (lists_of_mem hx)
  | @released a ha _ =>
    rw [release_releases] at hx
    rcases mem_append.1 hx with hx | hx
    · exact .inl (lists_of_mem hx)
    · exact .inr ⟨a, ha, mem_singleton.1 hx, rfl⟩
  | withdrawn _ _ | unfiled _ _ => exact .inl (lists_of_mem (mem_of_mem_filter hx))
  | cleared _ _ =>
    rw [dropReleases_eq] at hx
    exact .inl (lists_of_mem (mem_of_mem_filter hx))
  | emptied _ _ => exact .inl (lists_of_mem hx)

/-- A release is there afterwards, or the user may remove it. -/
theorem release_after (h : Change c r status d) (hx : x ∈ c.releases) :
    d.Lists x ∨ ∃ p y, c.MayRemove r p ∧ y ∈ c.releasesOf p ∧ y.id = x.id := by
  cases h with
  | nothing | renewed | emptied => exact .inl (lists_of_mem hx)
  | counted _ =>
    refine .inl ⟨_, mem_map_of_mem hx, ?_⟩
    split <;> exact ⟨rfl, rfl⟩
  | entered _ _ =>
    refine .inl (lists_of_mem ?_)
    rwa [enter_releases]
  | released _ _ =>
    refine .inl (lists_of_mem ?_)
    rw [release_releases]
    exact mem_append_left _ hx
  | @withdrawn y hy _ | @unfiled y hy _ =>
    obtain ⟨p, hp, hwithin⟩ := hy.mayRemove
    by_cases hid : y.id = x.id
    · exact .inr ⟨p, y, hp, hwithin, hid⟩
    · have hne : (x.id != y.id) = true := by simpa using Ne.symm hid
      exact .inl (lists_of_mem (mem_filter.2 ⟨hx, hne⟩))
  | @cleared q hq _ =>
    obtain ⟨p, hp, rfl⟩ := hq.mayRemove
    by_cases hid : ∃ y ∈ c.releasesOf q, y.id = x.id
    · obtain ⟨y, hy, hid⟩ := hid
      exact .inr ⟨q, y, hp, hy, hid⟩
    · refine .inl (lists_of_mem ?_)
      rw [dropReleases_eq]
      refine mem_filter.2 ⟨hx, all_eq_true.2 ?_⟩
      intro y hy
      have hne : x.id ≠ y.id := fun heq => hid ⟨y, hy, heq.symm⟩
      simpa using hne

/-- A package is there before, but for its counts and its latest version, or it is new. -/
theorem package_before (h : Change c r status d) {q} (hq : q ∈ d.packages) :
    (∃ p ∈ c.packages, ∃ n latest, q = { p with downloads := p.downloads + n, latest := latest } ∧
      (c.downloaded? r = none → n = 0)) ∨ q.id = c.nextPackage ∧ q.downloads = 0 := by
  have hsame : ∀ q ∈ c.packages, ∃ p ∈ c.packages, ∃ n latest,
      q = { p with downloads := p.downloads + n, latest := latest } ∧ (c.downloaded? r = none → n = 0) :=
    fun q hq => ⟨q, hq, 0, q.latest, rfl, fun _ => rfl⟩
  cases h with
  | nothing | renewed | emptied | withdrawn | unfiled => exact .inl (hsame q hq)
  | @counted release hdownloaded =>
    obtain ⟨p, hp, rfl⟩ := mem_map.1 hq
    refine .inl ⟨p, hp, if p.id = release.package then 1 else 0, p.latest, ?_, ?_⟩
    · split <;> rfl
    · intro hnone
      rw [hdownloaded] at hnone
      cases hnone
  | entered _ _ =>
    rcases mem_enter_packages.1 hq with hq | ⟨-, rfl⟩
    · exact .inl (hsame q hq)
    · exact .inr ⟨rfl, rfl⟩
  | @released a _ _ =>
    obtain ⟨p, hp, rfl⟩ := mem_map.1 hq
    rcases mem_enter_packages.1 hp with hp | ⟨-, rfl⟩
    · refine .inl ⟨p, hp, 0, if p.id = (c.enter a).2 then some a.submission.version else p.latest, ?_, fun _ => rfl⟩
      split <;> rfl
    · right
      split <;> exact ⟨rfl, rfl⟩
  | cleared _ _ =>
    rw [dropReleases_eq] at hq
    exact .inl (hsame q (mem_of_mem_filter hq))

/-- A package is there afterwards, or the user may remove it. -/
theorem package_after (h : Change c r status d) (hp : p ∈ c.packages) :
    (∃ q ∈ d.packages, q.id = p.id) ∨ ∃ q, c.MayRemove r q ∧ q.id = p.id := by
  have hentered : ∀ a, p ∈ (c.enter a).1.packages := fun a => mem_enter_packages.2 (.inl hp)
  cases h with
  | nothing | renewed | emptied | withdrawn | unfiled => exact .inl ⟨p, hp, rfl⟩
  | counted _ =>
    refine .inl ⟨_, mem_map_of_mem hp, ?_⟩
    split <;> rfl
  | entered _ _ => exact .inl ⟨p, hentered _, rfl⟩
  | released _ _ =>
    refine .inl ⟨_, mem_map_of_mem (hentered _), ?_⟩
    split <;> rfl
  | @cleared q hq _ =>
    obtain ⟨p', hp', rfl⟩ := hq.mayRemove
    by_cases hid : q.id = p.id
    · exact .inr ⟨q, hp', hid⟩
    · have hne : (p.id != q.id) = true := by simpa using Ne.symm hid
      rw [dropReleases_eq]
      exact .inl ⟨p, mem_filter.2 ⟨hp, hne⟩, rfl⟩

/-- The users stay as they are, or one of them gets a new key. -/
theorem users (h : Change c r status d) : d.users = c.users ∨ ∃ u, c.ActsFor r u ∧ d.users = (c.renewKey u).users := by
  cases h with
  | nothing | emptied | withdrawn | unfiled | counted => exact .inl rfl
  | entered _ _ => exact .inl (enter_users _)
  | released _ _ => exact .inl (enter_users _)
  | cleared _ _ =>
    rw [dropReleases_eq]
    exact .inl rfl
  | renewed _ hu => exact .inr ⟨_, authenticate_eq_ok.1 hu, rfl⟩

end Change

/-! ## Authorised requests -/

/-- The keys of the tables: no two users, packages or releases have the same number, no two packages have the same
name, and the next number of a package is a new one. -/
structure Keyed (c : Catalog) : Prop where
  users : (c.users.map (·.id)).Nodup
  packages : (c.packages.map (·.id)).Nodup
  names : (c.packages.map (·.name)).Nodup
  releases : (c.releases.map (·.id)).Nodup
  fresh : ∀ p ∈ c.packages, p.id < c.nextPackage

/-- Between two catalogues only those rows differ that the user of the request may change. -/
structure Authorised (c : Catalog) (r : Request) (d : Catalog) : Prop where
  /-- who adds a release to a package that was there is its author -/
  added : ∀ x ∈ d.releases, ¬ c.Lists x → ∀ p ∈ c.packages, p.id = x.package → ∃ u, c.ActsFor r u ∧ p.author = u.id
  /-- who removes a release is the author of its package or an administrator -/
  removed : ∀ x ∈ c.releases, ¬ d.Lists x → ∃ p, p.id = x.package ∧ c.MayRemove r p
  /-- who removes a package is its author or an administrator -/
  dropped : ∀ p ∈ c.packages, (∀ q ∈ d.packages, q.id ≠ p.id) → c.MayRemove r p
  /-- users neither come nor go -/
  users : d.users.map (·.id) = c.users.map (·.id)
  /-- who gets another key is the user of the request -/
  keys : ∀ u ∈ c.users, ∀ v ∈ d.users, v.id = u.id → v.key ≠ u.key → c.ActsFor r u
  /-- packages keep their authors -/
  authors : ∀ p ∈ c.packages, ∀ q ∈ d.packages, q.id = p.id → q.author = p.author

namespace Keyed

variable {c d : Catalog} {r : Request} {status : Nat}

/-- The package that gets a release is the one that the user may update, or a new one. -/
theorem author_of_newRelease (h : Keyed c) (ha : c.Uploads r a)
    (hnames : ((c.enter a).1.packages.map (·.name)).Nodup) (hp : p ∈ c.packages) (hid : p.id = (c.newRelease a).package) :
    ∃ u, c.ActsFor r u ∧ p.author = u.id := by
  obtain ⟨u, hu, hauthor⟩ := ha.author
  cases hpackage : a.package with
  | some q =>
    have hq : (c.newRelease a).package = q.id := by simp only [newRelease, enter, hpackage]
    have heq : p = q := inj_on_of_nodup_map h.packages hp (ha.package_mem hpackage) (hid.trans hq)
    exact ⟨u, hu, heq ▸ hauthor q hpackage⟩
  | none =>
    have hnew := package?_eq_none_of_nodup hpackage hnames
    have hnext : (c.newRelease a).package = c.nextPackage := by
      simp only [newRelease, enter, hpackage, hnew]
      rfl
    have hlt := h.fresh p hp
    omega

theorem authorised (h : Keyed c) (hchange : Change c r status d) (hnames : (d.packages.map (·.name)).Nodup) :
    Authorised c r d where
  added := by
    intro x hx hnot p hp hid
    rcases hchange.release_before hx with hlists | ⟨a, ha, rfl, rfl⟩
    · exact absurd hlists hnot
    · rw [Orderly.names_release] at hnames
      exact h.author_of_newRelease ha hnames hp hid
  removed := by
    intro x hx hnot
    rcases hchange.release_after hx with hlists | ⟨p, y, hp, hy, hid⟩
    · exact absurd hlists hnot
    · obtain ⟨hy, hpackage⟩ := mem_filter.1 hy
      have heq : y = x := inj_on_of_nodup_map h.releases hy hx hid
      subst heq
      have hpackage : y.package = p.id := by simpa using hpackage
      exact ⟨p, hpackage.symm, hp⟩
  dropped := by
    intro p hp hnone
    rcases hchange.package_after hp with ⟨q, hq, hid⟩ | ⟨q, hq, hid⟩
    · exact absurd hid (hnone q hq)
    · have heq : q = p := inj_on_of_nodup_map h.packages hq.1 hp hid
      exact heq ▸ hq
  users := by
    rcases hchange.users with heq | ⟨u, -, heq⟩
    · rw [heq]
    · rw [heq, renewKey, map_map]
      refine map_congr_left fun v _ => ?_
      simp only [Function.comp_apply]
      split <;> rfl
  keys := by
    intro u hu v hv hid hkey
    rcases hchange.users with heq | ⟨w, hw, heq⟩
    · rw [heq] at hv
      exact absurd (congrArg User.key (inj_on_of_nodup_map h.users hv hu hid)) hkey
    · rw [heq] at hv
      obtain ⟨v', hv', rfl⟩ := mem_map.1 hv
      split at hid
      · next hsame =>
        have heq : w = u := inj_on_of_nodup_map h.users hw.mem hu (hsame.symm.trans hid)
        exact heq ▸ hw
      · next hother =>
        have heq : v' = u := inj_on_of_nodup_map h.users hv' hu hid
        rw [if_neg hother, heq] at hkey
        exact absurd rfl hkey
  authors := by
    intro p hp q hq hid
    rcases hchange.package_before hq with ⟨p', hp', n, latest, rfl, -⟩ | ⟨hnext, -⟩
    · have heq : p' = p := inj_on_of_nodup_map h.packages hp' hp hid
      rw [heq]
    · have hlt := h.fresh p hp
      omega

end Keyed

/-- Whatever the catalogue holds, a request changes only what its user may change. -/
theorem request_authorised {c : Catalog} (h : Keyed c) (r : Request) : Authorised c r (c.after (.request r)) := by
  rw [Catalog.after]
  split
  · next hnames => exact h.authorised (c.outcome_change r) hnames
  · exact h.authorised (.nothing 500) h.names

/-- A package of one user, with a release, and an administrator. -/
def lonePackage : Catalog :=
  { Catalog.start [⟨1, "ann", some "a", false, false⟩, ⟨2, "root", some "r", false, true⟩] with
    packages := [⟨1, "pkg", 1, .str "", 0, none⟩]
    releases := [⟨1, 1, ⟨0, [1], none, none, none, []⟩, 0, "", "pkg/1.zip"⟩]
    nextPackage := 2
    nextRelease := 2 }

/-- The administrator removes the package. -/
def clearing : Request :=
  { method := "POST", path := "/api/delete", key := some "r",
    doc := some (.obj [("package", .str "pkg")]), file := none, storeDown := false }

theorem request_authorised_administrator :
    Keyed lonePackage ∧ (lonePackage.after (.request clearing)).packages.length = 0 ∧
      Authorised lonePackage clearing (lonePackage.after (.request clearing)) := by
  have hkeyed : Keyed lonePackage := ⟨by decide, by decide, by decide, by decide, by simp [lonePackage]⟩
  exact ⟨hkeyed, by decide +kernel, request_authorised hkeyed clearing⟩

/-! ## Requests that name no user -/

/-- The paths where a key is asked for. -/
def userPaths : List String := ["/api/upload", "/api/delete", "/api/refresh-key"]

theorem destination_post {ρ : Type} {route : ρ} {methods} (h : methods route = ["POST"])
    (method : String) : Web.destination [route] methods method =
      if method = "OPTIONS" then .options else if method = "POST" then .route route else .otherMethod := by
  by_cases hoptions : method = "OPTIONS"
  · subst hoptions
    rfl
  · rw [if_neg hoptions]
    by_cases hpost : method = "POST"
    · subst hpost
      simp [Web.destination, h]
    · simp [Web.destination, h, hpost]

theorem ofPath?_of_mem_userPaths {path} (h : path ∈ userPaths) :
    ∃ route, Route.ofPath? path = some route ∧ route.methods = ["POST"] ∧
      (route = .upload ∨ route = .delete ∨ route = .refreshKey) := by
  simp only [userPaths, mem_cons, not_mem_nil, or_false] at h
  rcases h with rfl | rfl | rfl
  · exact ⟨.upload, by decide +kernel, rfl, .inl rfl⟩
  · exact ⟨.delete, by decide +kernel, rfl, .inr (.inl rfl)⟩
  · exact ⟨.refreshKey, by decide +kernel, rfl, .inr (.inr rfl)⟩

namespace Catalog

variable {c : Catalog} {r : Request}

/-- The request names no user: it carries no key, or one that nobody has. -/
def Nameless (c : Catalog) (r : Request) : Prop := r.key = none ∨ ∀ u ∈ c.users, u.key ≠ r.key

/-- The request is turned away: nothing changes, and the reply is no success. Which methods a path takes is told
to everyone. -/
def TurnsAway (c : Catalog) (r : Request) : Prop :=
  (c.outcome r).2 = c ∧ (r.method ≠ "OPTIONS" → ¬ (200 ≤ (c.outcome r).1 ∧ (c.outcome r).1 < 300))

theorem turnsAway_of_refused (h : 400 ≤ (c.outcome r).1 ∧ (c.outcome r).2 = c) : c.TurnsAway r :=
  ⟨h.2, fun _ hsuccess => by omega⟩

theorem route?_of_post (hroute : Route.ofPath? r.path = some route)
    (hmethods : route.methods = ["POST"]) (hpost : r.method = "POST") : r.route? = some route := by
  rw [Request.route?, hroute, Option.toList_some, destination_post hmethods, hpost]
  rfl

theorem outcome_of_other_method (hroute : Route.ofPath? r.path = some route)
    (hmethods : route.methods = ["POST"]) (hpost : r.method ≠ "POST") :
    c.outcome r = (if r.method = "OPTIONS" then 200 else 405, c) := by
  have hdestination := destination_post hmethods r.method
  rw [if_neg hpost] at hdestination
  unfold outcome serve
  rw [hroute, Option.toList_some, hdestination]
  by_cases hoptions : r.method = "OPTIONS"
  · rw [if_pos hoptions, if_pos hoptions]
    rfl
  · rw [if_neg hoptions, if_neg hoptions]
    rfl

theorem turnsAway_of_other_method (hroute : Route.ofPath? r.path = some route)
    (hmethods : route.methods = ["POST"]) (hpost : r.method ≠ "POST") : c.TurnsAway r := by
  rw [TurnsAway, outcome_of_other_method hroute hmethods hpost]
  refine ⟨rfl, fun hother => ?_⟩
  simp [hother]

/-- Where a key is asked for, what is not turned away acts for a user. -/
theorem turnsAway_of_not_actsFor (hpath : r.path ∈ userPaths) (hnobody : ∀ u, ¬ c.ActsFor r u) : c.TurnsAway r := by
  obtain ⟨route, hroute, hmethods, hcase⟩ := ofPath?_of_mem_userPaths hpath
  by_cases hpost : r.method = "POST"
  · have htaken := route?_of_post hroute hmethods hpost
    refine turnsAway_of_refused ?_
    rcases hcase with rfl | rfl | rfl
    · refine outcome_of_not_uploads htaken fun a ha => ?_
      obtain ⟨u, hu, -⟩ := ha.author
      exact hnobody u hu
    · refine outcome_of_not_deletes htaken fun removal hremoval => ?_
      obtain ⟨p, ⟨-, u, hu, -⟩, -⟩ := hremoval.mayRemove
      exact hnobody u hu
    · cases huser : c.authenticate r.key with
      | error e => exact outcome_of_not_authenticated htaken huser
      | ok u => exact absurd (authenticate_eq_ok.1 huser) (hnobody u)
  · exact turnsAway_of_other_method hroute hmethods hpost

/-- Removals ask for a key themselves, before they look for a user. -/
theorem Deletes.key_ne_none (h : c.Deletes r removal) : r.key ≠ none := by
  obtain ⟨-, doc, -, h⟩ := h
  intro hkey
  rw [ Catalog.mayRemove, hkey] at h
  split at h
  · cases h
  · obtain ⟨name, -, h⟩ := exists_of_bind_ok h
    obtain ⟨version, -, h⟩ := exists_of_bind_ok h
    cases h

theorem turnsAway_of_delete (hpath : r.path = "/api/delete") (hkey : r.key = none) : c.TurnsAway r := by
  have hroute : Route.ofPath? r.path = some .delete := by
    rw [hpath]
    decide +kernel
  by_cases hpost : r.method = "POST"
  · refine turnsAway_of_refused (outcome_of_not_deletes (route?_of_post hroute rfl hpost) fun removal hremoval => ?_)
    exact hremoval.key_ne_none hkey
  · exact turnsAway_of_other_method hroute rfl hpost

theorem not_actsFor_of_unknown (h : ∀ u ∈ c.users, u.key ≠ r.key) (u : User) : ¬ c.ActsFor r u := by
  intro hu
  have hkey : u.key = r.key := by simpa using find?_some hu.1
  exact h u hu.mem hkey

end Catalog

/-- A request for a new key that carries none. -/
def keylessRefresh : Request :=
  { method := "POST", path := "/api/refresh-key", key := none, doc := none, file := none, storeDown := false }

/-- A request that names no user is turned away if it carries a key or asks for a removal; all of them are turned
away exactly if no user without key, the first one that is found, may act. -/
theorem nameless_turned_away_iff (c : Catalog) :
    (∀ r, r.path ∈ userPaths → c.Nameless r → r.key ≠ none ∨ r.path = "/api/delete" → c.TurnsAway r) ∧
    ((∀ r, r.path ∈ userPaths → c.Nameless r → c.TurnsAway r) ↔
      ∀ u, c.userWithKey? none = some u → u.banned = true) := by
  have hknown : ∀ r, r.path ∈ userPaths → c.Nameless r → r.key ≠ none ∨ r.path = "/api/delete" → c.TurnsAway r := by
    intro r hpath hnameless hcase
    rcases hnameless with hkey | hunknown
    · exact turnsAway_of_delete (hcase.resolve_left (not_not_intro hkey)) hkey
    · exact turnsAway_of_not_actsFor hpath (not_actsFor_of_unknown hunknown)
  refine ⟨hknown, ?_, ?_⟩
  · intro hall u hu
    by_contra hbanned
    have hacts : c.ActsFor keylessRefresh u := ⟨hu, by simpa using hbanned⟩
    have hroute : keylessRefresh.route? = some .refreshKey := by decide +kernel
    have houtcome := outcome_of_authenticated hroute (authenticate_eq_ok.2 hacts)
    have haway := (hall keylessRefresh (by decide) (.inl rfl)).2 (by decide)
    rw [houtcome] at haway
    exact haway ⟨le_refl 200, by simp⟩
  · intro hbanned r hpath hnameless
    by_cases hkey : r.key = none
    · refine turnsAway_of_not_actsFor hpath fun u hu => ?_
      have hyes := hbanned u (hkey ▸ hu.1)
      rw [hu.2] at hyes
      cases hyes
    · exact hknown r hpath hnameless (.inl hkey)

/-- A user who has no key yet. -/
def keylessCatalog : Catalog := .start [⟨1, "ann", none, false, false⟩]

/-- An archive with all that a release needs. -/
def smallArchive : Packages.Archive :=
  [("package.toml", "[package]\nname = \"pkg\"\nversion = \"1\"\ndescription = \"d\"\n".toUTF8),
    ("README.md", "r".toUTF8), ("main.eryx", "x".toUTF8)]

/-- An upload that carries no key. -/
def keylessUpload : Request :=
  { method := "POST", path := "/api/upload", key := none, doc := none, file := some ⟨"f", .archive smallArchive⟩,
    storeDown := false }

/-- Requests without key renew the key of a user who has none, and publish in that user's name. -/
theorem keyless_requests_carried_out : keylessCatalog.Nameless keylessRefresh ∧ keylessCatalog.Nameless keylessUpload ∧
    (keylessCatalog.outcome keylessRefresh).1 = 200 ∧
    (keylessCatalog.outcome keylessRefresh).2.users.map (·.key) = [some "uuid-0"] ∧
    (keylessCatalog.outcome keylessUpload).1 = 201 ∧
    (keylessCatalog.outcome keylessUpload).2.packages.map (fun p => (p.name, p.author)) = [("pkg", 1)] :=
  ⟨.inl rfl, .inl rfl, by decide +kernel⟩

end SmallScript.Registry
