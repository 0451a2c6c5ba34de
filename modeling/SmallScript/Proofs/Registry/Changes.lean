import Mathlib.Data.List.Basic
import SmallScript.Registry.Serve
import SmallScript.Proofs.Packages.Versions
import SmallScript.Proofs.Text.Lower

/-!
# What a request changes

A request leaves the catalogue as it is, counts a download, publishes an admitted release, carries out a
removal that is allowed, as far as the store of archives answers, or renews a key; there is nothing else,
`Catalog.outcome_change`.
-/

namespace SmallScript.Registry

open Packages List
open Text (lower isIdentifier lower_lower slash_notMem_of_isIdentifier)

variable {a : Addition} {name : String} {p : Package} {user : User}

variable {release : Release}

/-! ## Requests -/

/-- The route that takes a request. -/
def Request.route? (r : Request) : Option Route :=
  match Web.destination (Route.ofPath? r.path).toList Route.methods r.method with
  | .route route => some route
  | _ => none

/-- The status of what is answered; a request that breaks off is answered with 500. -/
def statusOf : Except Machine.Failure Reply → Nat
  | .ok reply => reply.status
  | .error _ => 500

theorem Refusal.le_status (refusal : Refusal) : 400 ≤ refusal.status := by
  cases refusal <;> simp [status]

theorem le_statusOf_error {α : Type} (done : α → Reply) (e : Stop) : 400 ≤ statusOf (replyOf done (.error e)) := by
  cases e with
  | refused refusal => exact refusal.le_status
  | failed f => simp [replyOf, statusOf]

/-- The request uploads a release that may be added. -/
def Catalog.Uploads (c : Catalog) (r : Request) (a : Addition) : Prop :=
  r.route? = some .upload ∧ ∃ user s, c.authenticate r.key = .ok user ∧ Submission.ofUpload r.file = .ok s ∧
    c.admit user s = .ok a

/-- The request asks for a removal that is allowed. -/
def Catalog.Deletes (c : Catalog) (r : Request) (removal : Removal) : Prop :=
  r.route? = some .delete ∧ ∃ doc, r.doc = some doc ∧ c.mayRemove r.key doc = .ok removal

/-- The release that a request downloads. -/
def Catalog.downloaded? (c : Catalog) (r : Request) : Option Release :=
  match r.route? with
  | some (.download name version) => (c.toDownload name version).toOption
  | _ => none

/-- What a catalogue can become by a request, with the status of the reply. -/
inductive Change (c : Catalog) (r : Request) : Nat → Catalog → Prop
  | nothing (status : Nat) : Change c r status c
  | counted {release : Release} (h : c.downloaded? r = some release) : Change c r 302 (c.countDownload release)
  /-- a package is entered if it is new, and the store does not answer -/
  | entered {a : Addition} (ha : c.Uploads r a) (hdown : r.store.carriesOut 1 = false) : Change c r 500 (c.enter a).1
  | released {a : Addition} (ha : c.Uploads r a) (hup : r.store.carriesOut 1 = true) :
      Change c r 201 ((c.enter a).1.release a (c.enter a).2)
  | withdrawn {release : Release} (h : c.Deletes r (.release release)) (hup : r.store.carriesOut 1 = true) :
      Change c r 200 ((c.dropRelease release).dropObject release.path)
  /-- the row of a release goes, and the store does not answer -/
  | unfiled {release : Release} (h : c.Deletes r (.release release)) (hdown : r.store.carriesOut 1 = false) :
      Change c r 500 (c.dropRelease release)
  | cleared {p : Package} (h : c.Deletes r (.package p)) (hup : r.store.carriesOut (c.releasesOf p).length = true) :
      Change c r 200 ((c.dropReleases (c.releasesOf p)).dropPackage p)
  /-- archives of a package go until the store does not answer any more -/
  | emptied {p : Package} (h : c.Deletes r (.package p))
      (hdown : r.store.carriesOut (c.releasesOf p).length = false) :
      Change c r 500 (c.dropObjects ((c.releasesOf p).take (r.store.extent (c.releasesOf p).length)))
  | renewed {user : User} (hroute : r.route? = some .refreshKey) (huser : c.authenticate r.key = .ok user) :
      Change c r 200 (c.renewKey user)

namespace Catalog

variable {c : Catalog} {r : Request}

/-- What a request comes to: the status of the reply, and the catalogue after it. -/
def outcome (c : Catalog) (r : Request) : Nat × Catalog := (statusOf (c.serve r).1, (c.serve r).2)

theorem statusOf_map_head (result : Except Machine.Failure Reply) :
    statusOf (result.map Reply.head) = statusOf result := by
  cases result with
  | error f => rfl
  | ok reply =>
    simp only [Except.map, Reply.head]
    split <;> rfl

theorem outcome_of_route {route} (h : r.route? = some route) :
    c.outcome r = (statusOf (c.answer route r).1, (c.answer route r).2) := by
  unfold Request.route? at h
  unfold outcome serve
  split at h
  · next hroute =>
    cases h
    rw [hroute]
    simp only
    split
    · rw [statusOf_map_head]
    · rfl
  · cases h

theorem snd_outcome_of_route_none (h : r.route? = none) : (c.outcome r).2 = c := by
  unfold Request.route? at h
  unfold outcome serve
  split at h
  · cases h
  · next hroute =>
    split
    · rfl
    · rfl
    · rfl
    · next route heq => exact absurd heq (hroute route)

/-! ### Requests that are carried out -/

theorem outcome_of_uploads (h : c.Uploads r a) :
    c.outcome r = if r.store.carriesOut 1 then (201, (c.enter a).1.release a (c.enter a).2) else (500, (c.enter a).1) := by
  obtain ⟨hroute, user, s, huser, hs, ha⟩ := h
  rw [outcome_of_route hroute]
  simp only [answer, publish, huser, hs, ha, bind, Except.bind]
  split <;> rfl

theorem outcome_of_deletes_release (h : c.Deletes r (.release release)) :
    c.outcome r = if r.store.carriesOut 1 then (200, (c.dropRelease release).dropObject release.path)
      else (500, c.dropRelease release) := by
  obtain ⟨hroute, doc, hdoc, hremoval⟩ := h
  rw [outcome_of_route hroute]
  simp only [answer, hdoc, delete, hremoval, remove]
  cases r.store.carriesOut 1 <;> rfl

theorem outcome_of_deletes_package (h : c.Deletes r (.package p)) :
    c.outcome r = if r.store.carriesOut (c.releasesOf p).length then (200, (c.dropReleases (c.releasesOf p)).dropPackage p)
      else (500, c.dropObjects ((c.releasesOf p).take (r.store.extent (c.releasesOf p).length))) := by
  obtain ⟨hroute, doc, hdoc, hremoval⟩ := h
  rw [outcome_of_route hroute]
  simp only [answer, hdoc, delete, hremoval, remove]
  cases r.store.carriesOut (c.releasesOf p).length <;> rfl

theorem route_of_downloaded? (h : c.downloaded? r = some release) :
    ∃ name version, r.route? = some (.download name version) ∧ c.toDownload name version = .ok release := by
  unfold downloaded? at h
  split at h
  · next name version hroute =>
    cases hfound : c.toDownload name version with
    | ok x =>
      rw [hfound] at h
      cases h
      exact ⟨name, version, hroute, hfound⟩
    | error m =>
      rw [hfound] at h
      cases h
  · cases h

theorem outcome_of_downloaded? (h : c.downloaded? r = some release) : c.outcome r = (302, c.countDownload release) := by
  obtain ⟨name, version, hroute, hfound⟩ := route_of_downloaded? h
  rw [outcome_of_route hroute]
  simp only [answer, download, hfound]
  rfl

theorem outcome_of_authenticated (hroute : r.route? = some .refreshKey)
    (h : c.authenticate r.key = .ok user) : c.outcome r = (200, c.renewKey user) := by
  rw [outcome_of_route hroute]
  simp only [answer, refreshKey, h]
  rfl

/-! ### Requests that are refused -/

theorem outcome_of_not_uploads (hroute : r.route? = some .upload) (h : ∀ a, ¬ c.Uploads r a) :
    400 ≤ (c.outcome r).1 ∧ (c.outcome r).2 = c := by
  have hrefused : ∃ e, c.publish r.key r.file r.store = (.error e, c) := by
    rw [publish]
    cases huser : c.authenticate r.key with
    | error e => exact ⟨e, rfl⟩
    | ok user =>
      cases hs : Submission.ofUpload r.file with
      | error e => exact ⟨e, rfl⟩
      | ok s =>
        cases ha : c.admit user s with
        | error e => exact ⟨e, by simp only [bind, Except.bind, ha]⟩
        | ok a => exact absurd ⟨hroute, user, s, huser, hs, ha⟩ (h a)
  obtain ⟨e, he⟩ := hrefused
  rw [outcome_of_route hroute]
  simp only [answer, he, and_true]
  exact le_statusOf_error _ e

theorem outcome_of_not_deletes (hroute : r.route? = some .delete) (h : ∀ removal, ¬ c.Deletes r removal) :
    400 ≤ (c.outcome r).1 ∧ (c.outcome r).2 = c := by
  rw [outcome_of_route hroute]
  cases hdoc : r.doc with
  | none =>
    simp only [answer, hdoc, and_true]
    exact le_refl 400
  | some doc =>
    cases hremoval : c.mayRemove r.key doc with
    | error e =>
      simp only [answer, hdoc, delete, hremoval, and_true]
      exact le_statusOf_error _ e
    | ok removal => exact absurd ⟨hroute, doc, hdoc, hremoval⟩ (h removal)

theorem outcome_of_not_authenticated {e} (hroute : r.route? = some .refreshKey)
    (h : c.authenticate r.key = .error e) : 400 ≤ (c.outcome r).1 ∧ (c.outcome r).2 = c := by
  rw [outcome_of_route hroute]
  simp only [answer, refreshKey, h, and_true]
  exact le_statusOf_error _ e

/-! ### Every request -/

theorem upload_change (hroute : r.route? = some .upload) : Change c r (c.outcome r).1 (c.outcome r).2 := by
  by_cases h : ∃ a, c.Uploads r a
  · obtain ⟨a, ha⟩ := h
    rw [outcome_of_uploads ha]
    split
    · next hup => exact .released ha hup
    · next hdown => exact .entered ha (by simpa using hdown)
  · rw [(outcome_of_not_uploads hroute (not_exists.1 h)).2]
    exact .nothing _

theorem delete_change (hroute : r.route? = some .delete) : Change c r (c.outcome r).1 (c.outcome r).2 := by
  by_cases h : ∃ removal, c.Deletes r removal
  · obtain ⟨removal, hremoval⟩ := h
    cases removal with
    | release release =>
      rw [outcome_of_deletes_release hremoval]
      split
      · next hup => exact .withdrawn hremoval hup
      · next hdown => exact .unfiled hremoval (by simpa using hdown)
    | package p =>
      rw [outcome_of_deletes_package hremoval]
      split
      · next hup => exact .cleared hremoval hup
      · next hdown => exact .emptied hremoval (by simpa using hdown)
  · rw [(outcome_of_not_deletes hroute (not_exists.1 h)).2]
    exact .nothing _

theorem download_change {version}
    (hroute : r.route? = some (.download name version)) : Change c r (c.outcome r).1 (c.outcome r).2 := by
  cases hfound : c.toDownload name version with
  | error m =>
    rw [outcome_of_route hroute]
    simp only [answer, download, hfound]
    exact .nothing _
  | ok release =>
    have hdownloaded : c.downloaded? r = some release := by simp [downloaded?, hroute, hfound, Except.toOption]
    rw [outcome_of_downloaded? hdownloaded]
    exact .counted hdownloaded

theorem refreshKey_change (hroute : r.route? = some .refreshKey) : Change c r (c.outcome r).1 (c.outcome r).2 := by
  cases huser : c.authenticate r.key with
  | error e =>
    rw [(outcome_of_not_authenticated hroute huser).2]
    exact .nothing _
  | ok user =>
    rw [outcome_of_authenticated hroute huser]
    exact .renewed hroute huser

theorem outcome_change (c : Catalog) (r : Request) : Change c r (c.outcome r).1 (c.outcome r).2 := by
  cases hroute : r.route? with
  | none =>
    rw [snd_outcome_of_route_none hroute]
    exact .nothing _
  | some route =>
    cases route with
    | upload => exact upload_change hroute
    | delete => exact delete_change hroute
    | refreshKey => exact refreshKey_change hroute
    | download name version => exact download_change hroute
    | home | ping | page name =>
      rw [outcome_of_route hroute]
      exact .nothing _
    | versions name =>
      rw [outcome_of_route hroute]
      simp only [answer]
      split <;> exact .nothing _

theorem mem_of_toDownload {version} (h : c.toDownload name version = .ok release) :
    ∃ p, c.package? name = some p ∧ release ∈ c.releasesOf p := by
  unfold toDownload at h
  split at h
  · cases h
  · next p hp =>
    split at h
    · next hlast =>
      cases h
      exact ⟨p, hp, mem_of_getLast? hlast⟩
    · cases h
  · next p v hp =>
    split at h
    · next hfound =>
      cases h
      exact ⟨p, hp, mem_of_find?_eq_some hfound⟩
    · cases h

theorem mem_of_downloaded? (h : c.downloaded? r = some release) : release ∈ c.releases := by
  obtain ⟨name, version, -, hfound⟩ := route_of_downloaded? h
  obtain ⟨p, -, hrelease⟩ := mem_of_toDownload hfound
  exact mem_of_mem_filter hrelease

/-! ## Rows -/

@[simp] theorem enter_users (a : Addition) : (c.enter a).1.users = c.users := by
  unfold enter
  split <;> rfl

@[simp] theorem enter_releases (a : Addition) : (c.enter a).1.releases = c.releases := by
  unfold enter
  split <;> rfl

@[simp] theorem enter_objects (a : Addition) : (c.enter a).1.objects = c.objects := by
  unfold enter
  split <;> rfl

@[simp] theorem enter_nextRelease (a : Addition) : (c.enter a).1.nextRelease = c.nextRelease := by
  unfold enter
  split <;> rfl

def newPackage (c : Catalog) (a : Addition) : Package :=
  ⟨c.nextPackage, a.name, a.author.id, a.submission.description, 0, none⟩

def newRelease (c : Catalog) (a : Addition) : Release :=
  ⟨c.nextRelease, (c.enter a).2, a.submission.version, 0, a.submission.readme, a.path⟩

theorem enter_packages (a : Addition) :
    (c.enter a).1.packages = c.packages ++ if a.package.isNone then [c.newPackage a] else [] := by
  unfold enter
  split
  · next hp => simp [hp]
  · next hp =>
    simp only [hp]
    rfl

theorem mem_enter_packages : p ∈ (c.enter a).1.packages ↔ p ∈ c.packages ∨ a.package = none ∧ p = c.newPackage a := by
  rw [enter_packages]
  cases a.package <;> simp

theorem release_releases (a : Addition) :
    ((c.enter a).1.release a (c.enter a).2).releases = c.releases ++ [c.newRelease a] := by
  simp only [release, putObject, enter_releases, enter_nextRelease]
  rfl

theorem release_packages (a : Addition) :
    ((c.enter a).1.release a (c.enter a).2).packages = (c.enter a).1.packages.map fun p =>
      if p.id = (c.enter a).2 then { p with latest := some a.submission.version } else p := rfl

theorem release_objects (a : Addition) :
    ((c.enter a).1.release a (c.enter a).2).objects = c.objects.insert a.path a.submission.archive := by
  simp only [release, addRelease, modifyPackage, putObject, enter_objects]

/-- Where no two packages get the same name, a new package has a new one. -/
theorem package?_eq_none_of_nodup (hp : a.package = none)
    (hnames : ((c.enter a).1.packages.map (·.name)).Nodup) : c.package? a.name = none := by
  rw [enter, hp] at hnames
  simp only [addPackage, map_append] at hnames
  have hdisjoint := (nodup_append.1 hnames).2.2
  refine find?_eq_none.2 fun p hp heq => ?_
  exact hdisjoint _ (mem_map_of_mem hp) _ (mem_singleton_self _) (by simpa using heq)

/-- Releases that are dropped with their archives are dropped from both tables. -/
theorem dropReleases_eq (rs : List Release) : c.dropReleases rs =
    { c.dropObjects rs with releases := c.releases.filter fun x => rs.all fun r => x.id != r.id } := by
  induction rs generalizing c with
  | nil =>
    simp only [dropReleases, dropObjects, foldl_nil, all_nil]
    rw [filter_eq_self.2 fun _ _ => rfl]
  | cons r rs ih =>
    have hstep : c.dropReleases (r :: rs) = ((c.dropRelease r).dropObject r.path).dropReleases rs := rfl
    rw [hstep, ih]
    simp only [dropRelease, dropObject, dropObjects, filter_filter, all_cons, foldl_cons, Bool.and_comm]

/-! ## Admitted releases -/

/-- What is known of an admitted release. -/
structure Admitted (c : Catalog) (user : User) (s : Submission) (a : Addition) : Prop where
  author : a.author = user
  submission : a.submission = s
  package : a.package = c.named? s.name
  update : ∀ p, a.package = some p → checkUpdate user s.version p = .ok ()
  name : packageNameOf s.name = .ok a.name

theorem admitted_of_admit {s} (h : c.admit user s = .ok a) : Admitted c user s a := by
  have hrest (name : Except Stop String) (package : Option Package)
      (h : (do let name ← name if s.archive.storedSize + formSize > requestLimit then refuse .tooLarge
               return (⟨user, package, name, s⟩ : Addition)) = .ok a) :
      ∃ text, name = .ok text ∧ a = ⟨user, package, text, s⟩ := by
    obtain ⟨text, hname, h⟩ := exists_of_bind_ok h
    split at h
    · cases h
    · cases h
      exact ⟨text, hname, rfl⟩
  rw [ Catalog.admit] at h
  cases hnamed : c.named? s.name with
  | none =>
    simp only [hnamed] at h
    obtain ⟨text, hname, rfl⟩ := hrest _ _ h
    exact ⟨rfl, rfl, hnamed.symm, fun p hp => absurd hp (by simp), hname⟩
  | some p =>
    simp only [hnamed] at h
    obtain ⟨_, hupdate, h⟩ := exists_of_bind_ok h
    obtain ⟨text, hname, rfl⟩ := hrest _ _ h
    refine ⟨rfl, rfl, hnamed.symm, fun q hq => ?_, hname⟩
    cases hq
    exact hupdate

end Catalog

theorem normal_of_versionOf {table v} (h : versionOf table = .ok v) : v.Normal := by
  unfold versionOf at h
  split at h
  · split at h
    · next hread =>
      cases h
      exact Version.normal_of_parse? hread
    · cases h
  · cases h
  · cases h

theorem Submission.normal_ofUpload {file s} (h : Submission.ofUpload file = .ok s) : s.version.Normal := by
  unfold ofUpload at h
  split at h
  · cases h
  · split at h
    · cases h
    · obtain ⟨archive, -, h⟩ := exists_of_bind_ok h
      obtain ⟨files, -, h⟩ := exists_of_bind_ok h
      obtain ⟨readme, -, h⟩ := exists_of_bind_ok h
      obtain ⟨manifest, -, h⟩ := exists_of_bind_ok h
      obtain ⟨-, -, h⟩ := exists_of_bind_ok h
      obtain ⟨table, -, h⟩ := exists_of_bind_ok h
      obtain ⟨version, hversion, h⟩ := exists_of_bind_ok h
      obtain ⟨name, -, h⟩ := exists_of_bind_ok h
      obtain ⟨description, -, h⟩ := exists_of_bind_ok h
      cases h
      exact normal_of_versionOf hversion

theorem packageNameOf_ok {value} (h : packageNameOf value = .ok name) :
    lower name = name ∧ isIdentifier name.toList = true := by
  obtain ⟨text, -, h⟩ := exists_of_bind_ok h
  simp only at h
  split at h
  · next hname =>
    cases h
    exact ⟨lower_lower text, hname⟩
  · cases h

theorem packageNameOf_str {text} (h : packageNameOf (.str text) = .ok name) : name = lower text := by
  obtain ⟨_, htext, h⟩ := exists_of_bind_ok h
  cases htext
  simp only at h
  split at h
  · cases h
    rfl
  · cases h

theorem latest_lt_of_checkUpdate {version latest}
    (h : checkUpdate user version p = .ok ()) (hlatest : p.latest = some latest) : latest < version := by
  unfold checkUpdate at h
  rw [hlatest] at h
  split at h
  · cases h
  · simp only at h
    split at h
    · next hlt => exact hlt
    · cases h

end SmallScript.Registry
