import SmallScript.Proofs.Data.Tables
import SmallScript.Proofs.Registry.Access

/-!
# Rows and archives

The rows of releases and the archives in the store are changed one after the other, and the store may stop answering
in between. A request that is answered with an error leaves packages, releases and archives as they were, but for
three cases: a new package stays without its release, the row of a release goes without its archive, or archives of a
package go without its rows. Rows and archives stay in step as long as neither of the last two cases comes up,
`rows_and_archives_in_step`.
-/

namespace SmallScript.Registry

open List Catalog
open Data (Table)
open Packages (Archive)

namespace Catalog

variable {c d : Catalog} {r : Request}

/-- The status of the reply to a request. A request that would enter a second package of a name breaks off. -/
def replyStatus (c : Catalog) (r : Request) : Nat :=
  if ((c.serve r).2.packages.map (·.name)).Nodup then (c.outcome r).1 else 500

/-- The same packages, releases and archives. -/
def SameStock (c d : Catalog) : Prop :=
  d.packages = c.packages ∧ d.releases = c.releases ∧ d.objects = c.objects

theorem SameStock.refl (c : Catalog) : SameStock c c := ⟨rfl, rfl, rfl⟩

/-! ## Requests that are half done -/

/-- A new package is entered, and the archive of its release is not stored. -/
def LeavesPackage (c : Catalog) (r : Request) : Prop :=
  ∃ a, c.Uploads r a ∧ a.package = none ∧ a.name ∉ c.packages.map (·.name) ∧ r.store.carriesOut 1 = false

/-- The row of a release is removed, and its archive is not. -/
def LeavesArchive (c : Catalog) (r : Request) : Prop :=
  ∃ x, c.Deletes r (.release x) ∧ r.store.carriesOut 1 = false

/-- Archives of a package are removed, and its rows are not. -/
def LosesArchives (c : Catalog) (r : Request) : Prop :=
  ∃ p, c.Deletes r (.package p) ∧ r.store.carriesOut (c.releasesOf p).length = false ∧
    ∃ x ∈ (c.releasesOf p).take (r.store.extent (c.releasesOf p).length), c.objects.contains x.path = true

/-- The request is half done when it is answered. -/
def HalfDone (c : Catalog) (r : Request) : Prop := c.LeavesPackage r ∨ c.LeavesArchive r ∨ c.LosesArchives r

theorem outcome_of_leavesPackage (h : c.LeavesPackage r) :
    ∃ a, a.name ∉ c.packages.map (·.name) ∧ (c.outcome r).2.packages = c.packages ++ [c.newPackage a] := by
  obtain ⟨a, ha, hnone, hnew, hdown⟩ := h
  refine ⟨a, hnew, ?_⟩
  rw [outcome_of_uploads ha, if_neg (by simp [hdown]), enter_packages, hnone]
  rfl

theorem outcome_of_leavesArchive (h : c.LeavesArchive r) : ∃ x ∈ c.releases, (c.outcome r).2 = c.dropRelease x := by
  obtain ⟨x, hx, hdown⟩ := h
  obtain ⟨p, -, hwithin⟩ := hx.mayRemove
  refine ⟨x, mem_of_mem_filter hwithin, ?_⟩
  rw [outcome_of_deletes_release hx, if_neg (by simp [hdown])]

theorem outcome_of_losesArchives (h : c.LosesArchives r) :
    ∃ rs, (∃ x ∈ rs, x ∈ c.releases ∧ c.objects.contains x.path = true) ∧ (c.outcome r).2 = c.dropObjects rs := by
  obtain ⟨p, hp, hdown, x, hx, hthere⟩ := h
  refine ⟨_, ⟨x, hx, mem_of_mem_filter (mem_of_mem_take hx), hthere⟩, ?_⟩
  rw [outcome_of_deletes_package hp, if_neg (by simp [hdown])]

/-! ## What is left of a request that fails -/

/-- A request that is half done is not taken back. -/
theorem nodup_of_halfDone (h : Orderly c) (hhalf : c.HalfDone r) : ((c.serve r).2.packages.map (·.name)).Nodup := by
  have hsame : ∀ {d}, (c.outcome r).2 = d → d.packages = c.packages → ((c.serve r).2.packages.map (·.name)).Nodup := by
    intro d hd hpackages
    have hserve : (c.serve r).2 = d := hd
    rw [hserve, hpackages]
    exact h.names
  rcases hhalf with hpackage | harchive | harchives
  · obtain ⟨a, hnew, hpackages⟩ := outcome_of_leavesPackage hpackage
    have hserve : (c.serve r).2.packages = c.packages ++ [c.newPackage a] := hpackages
    rw [hserve, map_append, map_singleton]
    refine List.nodup_append.2 ⟨h.names, nodup_singleton _, ?_⟩
    intro name hname name' hname' heq
    rw [heq, List.mem_singleton.1 hname'] at hname
    exact hnew hname
  · obtain ⟨x, -, heq⟩ := outcome_of_leavesArchive harchive
    exact hsame heq rfl
  · obtain ⟨rs, -, heq⟩ := outcome_of_losesArchives harchives
    exact hsame heq rfl

theorem after_eq_outcome (h : ((c.serve r).2.packages.map (·.name)).Nodup) :
    c.after (.request r) = (c.outcome r).2 := if_pos h

theorem not_sameStock_of_halfDone (h : Orderly c) (hhalf : c.HalfDone r) : ¬ SameStock c (c.after (.request r)) := by
  rw [after_eq_outcome (nodup_of_halfDone h hhalf)]
  rintro ⟨hpackages, hreleases, hobjects⟩
  rcases hhalf with hpackage | harchive | harchives
  · obtain ⟨a, -, heq⟩ := outcome_of_leavesPackage hpackage
    rw [heq] at hpackages
    simp at hpackages
  · obtain ⟨x, hx, heq⟩ := outcome_of_leavesArchive harchive
    rw [heq] at hreleases
    have hkept : x ∈ (c.dropRelease x).releases := hreleases ▸ hx
    simpa using (List.mem_filter.1 hkept).2
  · obtain ⟨rs, ⟨x, hx, -, hthere⟩, heq⟩ := outcome_of_losesArchives harchives
    rw [heq] at hobjects
    rw [← hobjects] at hthere
    exact (Table.contains_foldl_erase.1 hthere).1 x hx rfl

/-- A request that is answered with an error changes nothing in the stock, or is half done. -/
theorem sameStock_or_halfDone {status} (hchange : Change c r status d) (hfails : 400 ≤ status)
    (hnames : (d.packages.map (·.name)).Nodup) :
    SameStock c d ∨ c.HalfDone r := by
  cases hchange with
  | nothing => exact .inl (.refl c)
  | counted | released | withdrawn | cleared | renewed => simp at hfails
  | @entered a ha hdown =>
    cases hpackage : a.package with
    | some p =>
      refine .inl ⟨?_, enter_releases a, enter_objects a⟩
      rw [enter_packages, hpackage]
      exact append_nil _
    | none =>
      have hnone := package?_eq_none_of_nodup hpackage hnames
      refine .inr (.inl ⟨a, ha, hpackage, ?_, hdown⟩)
      intro hmem
      obtain ⟨p, hp, hname⟩ := List.mem_map.1 hmem
      exact absurd (by simpa using hname) (List.find?_eq_none.1 hnone p hp)
  | unfiled h hdown => exact .inr (.inr (.inl ⟨_, h, hdown⟩))
  | @emptied p h hdown =>
    by_cases hthere : ∃ x ∈ (c.releasesOf p).take (r.store.extent (c.releasesOf p).length),
        c.objects.contains x.path = true
    · exact .inr (.inr (.inr ⟨p, h, hdown, hthere⟩))
    · refine .inl ⟨rfl, rfl, Table.foldl_erase_of_not_contains fun x hx => ?_⟩
      exact Bool.eq_false_iff.2 fun hx' => hthere ⟨x, hx, hx'⟩

theorem sameStock_iff (h : Orderly c) (hfails : 400 ≤ c.replyStatus r) :
    SameStock c (c.after (.request r)) ↔ ¬ c.HalfDone r := by
  constructor
  · intro hsame hhalf
    exact not_sameStock_of_halfDone h hhalf hsame
  · intro hwhole
    by_cases hnames : ((c.serve r).2.packages.map (·.name)).Nodup
    · rw [replyStatus, if_pos hnames] at hfails
      rw [after_eq_outcome hnames]
      exact (sameStock_or_halfDone (c.outcome_change r) hfails hnames).resolve_right hwhole
    · rw [after, if_neg hnames]
      exact .refl c

end Catalog

/-! ## Rows and archives in step -/

namespace Orderly

variable {c : Catalog}

theorem release_unique (h : Orderly c) {x y} (hx : x ∈ c.releases) (hy : y ∈ c.releases) (hid : x.id = y.id) : x = y :=
  inj_on_of_nodup_map h.releaseIds hx hy hid

theorem path_unique (h : Orderly c) {x y} (hx : x ∈ c.releases) (hy : y ∈ c.releases)
    (hpath : x.path = y.path) : x = y :=
  inj_on_of_nodup_map h.paths hx hy hpath

end Orderly

/-- Rows and archives are in step, where some archives were filed under the numbers of releases. -/
structure InStep (c : Catalog) (filed : List (Nat × Archive)) : Prop where
  /-- under the path of every release is the archive that was filed with it -/
  archived : ∀ x ∈ c.releases, ∃ archive, (x.id, archive) ∈ filed ∧ c.objects.get? x.path = some archive
  /-- every archive is one of a release -/
  owned : ∀ path, c.objects.contains path = true → ∃ x ∈ c.releases, x.path = path

namespace InStep

variable {c d : Catalog} {filed more : List (Nat × Archive)} {r : Request}

theorem contains (h : InStep c filed) {x} (hx : x ∈ c.releases) : c.objects.contains x.path = true := by
  obtain ⟨archive, -, hget⟩ := h.archived x hx
  exact Table.contains_iff.2 ⟨archive, hget⟩

/-- Releases may change as long as they keep their numbers and paths, and nothing filed is forgotten. -/
theorem mapReleases (h : InStep c filed) {g} (hid : ∀ x, (g x).id = x.id)
    (hpath : ∀ x, (g x).path = x.path) (hreleases : d.releases = c.releases.map g) (hobjects : d.objects = c.objects) :
    InStep d (filed ++ more) := by
  refine ⟨?_, ?_⟩
  · intro y hy
    rw [hreleases] at hy
    obtain ⟨x, hx, rfl⟩ := List.mem_map.1 hy
    obtain ⟨archive, hfiled, hget⟩ := h.archived x hx
    rw [hid, hpath, hobjects]
    exact ⟨archive, mem_append_left _ hfiled, hget⟩
  · intro path hcontains
    rw [hobjects] at hcontains
    obtain ⟨x, hx, rfl⟩ := h.owned path hcontains
    rw [hreleases]
    exact ⟨g x, mem_map_of_mem hx, hpath x⟩

theorem congr (h : InStep c filed) (hreleases : d.releases = c.releases) (hobjects : d.objects = c.objects) :
    InStep d (filed ++ more) :=
  h.mapReleases (g := id) (fun _ => rfl) (fun _ => rfl) (hreleases.trans (map_id _).symm) hobjects

/-- A release is added together with its archive, under a path of its own. -/
theorem add (h : InStep c filed) {x archive} (hfiled : (x.id, archive) ∈ more)
    (hreleases : d.releases = c.releases ++ [x]) (hobjects : d.objects = c.objects.insert x.path archive)
    (hpaths : (d.releases.map (·.path)).Nodup) : InStep d (filed ++ more) := by
  have hnew : ∀ y ∈ c.releases, y.path ≠ x.path := by
    rw [hreleases, map_append, map_singleton] at hpaths
    intro y hy
    exact (List.nodup_append.1 hpaths).2.2 _ (mem_map_of_mem hy) _ (mem_singleton_self _)
  refine ⟨?_, ?_⟩
  · intro y hy
    rw [hobjects, Table.get?_insert]
    rw [hreleases] at hy
    rcases List.mem_append.1 hy with hy | hy
    · obtain ⟨archive', hfiled', hget⟩ := h.archived y hy
      rw [if_neg (hnew y hy)]
      exact ⟨archive', mem_append_left _ hfiled', hget⟩
    · rw [List.mem_singleton.1 hy, if_pos rfl]
      exact ⟨archive, mem_append_right _ hfiled, rfl⟩
  · intro path hcontains
    rw [hobjects, Table.contains, Table.get?_insert] at hcontains
    rw [hreleases]
    split at hcontains
    · next hpath => exact ⟨x, mem_append_right _ (mem_singleton_self _), hpath.symm⟩
    · obtain ⟨y, hy, hpath⟩ := h.owned path hcontains
      exact ⟨y, mem_append_left _ hy, hpath⟩

/-- Releases are removed together with their archives. -/
theorem drop (h : InStep c filed) (horderly : Orderly c) (rs : List Release) (hrs : ∀ x ∈ rs, x ∈ c.releases)
    (hreleases : d.releases = c.releases.filter fun x => rs.all fun y => x.id != y.id)
    (hobjects : d.objects = (c.dropObjects rs).objects) : InStep d (filed ++ more) := by
  have hmem : ∀ {x}, x ∈ d.releases ↔ x ∈ c.releases ∧ ∀ y ∈ rs, x.id ≠ y.id := by
    intro x
    simp [hreleases]
  refine ⟨?_, ?_⟩
  · intro x hx
    obtain ⟨hx, hother⟩ := hmem.1 hx
    obtain ⟨archive, hfiled, hget⟩ := h.archived x hx
    have hpaths : ∀ y ∈ rs, x.path ≠ y.path := by
      intro y hy hpath
      exact hother y hy (congrArg Release.id (horderly.path_unique hx (hrs y hy) hpath))
    rw [hobjects, dropObjects, Table.get?_foldl_erase hpaths]
    exact ⟨archive, mem_append_left _ hfiled, hget⟩
  · intro path hcontains
    rw [hobjects] at hcontains
    obtain ⟨hother, hcontains⟩ := Table.contains_foldl_erase.1 hcontains
    obtain ⟨x, hx, rfl⟩ := h.owned path hcontains
    refine ⟨x, hmem.2 ⟨hx, ?_⟩, rfl⟩
    intro y hy hid
    exact hother y hy (congrArg Release.path (horderly.release_unique hx (hrs y hy) hid))

end InStep

namespace Catalog

variable {c d : Catalog} {r : Request}

/-- The archive that a request files, with the number of its release. -/
def filing (c : Catalog) (r : Request) : List (Nat × Archive) :=
  match Submission.ofUpload r.file with
  | .ok s => if c.replyStatus r = 201 then [(c.nextRelease, s.archive)] else []
  | .error _ => []

/-- A request that leaves rows and archives apart. -/
def Parts (c : Catalog) (r : Request) : Prop := c.LeavesArchive r ∨ c.LosesArchives r

theorem not_inStep_of_parts (h : Orderly c) {filed more} (hstep : InStep c filed)
    (hparts : c.Parts r) : ¬ InStep (c.after (.request r)) more := by
  rw [after_eq_outcome (nodup_of_halfDone h (.inr hparts))]
  intro hafter
  rcases hparts with harchive | harchives
  · obtain ⟨x, hx, heq⟩ := outcome_of_leavesArchive harchive
    rw [heq] at hafter
    -- the archive is still there, and no other release has its path
    obtain ⟨y, hy, hpath⟩ := hafter.owned x.path (hstep.contains hx)
    obtain ⟨hy, hid⟩ := List.mem_filter.1 hy
    rw [h.path_unique hy hx hpath] at hid
    simp at hid
  · obtain ⟨rs, ⟨x, hx, hrow, -⟩, heq⟩ := outcome_of_losesArchives harchives
    rw [heq] at hafter
    exact (Table.contains_foldl_erase.1 (hafter.contains (x := x) hrow)).1 x hx rfl

end Catalog

namespace InStep

variable {c d : Catalog} {filed more : List (Nat × Archive)} {r : Request} {status : Nat}

theorem change (h : InStep c filed) (horderly : Orderly c) (hchange : Change c r status d) (hd : Orderly d)
    (hwhole : ¬ c.Parts r)
    (hmore : ∀ a, c.Uploads r a → r.store.carriesOut 1 = true → (c.nextRelease, a.submission.archive) ∈ more) :
    InStep d (filed ++ more) := by
  cases hchange with
  | nothing | renewed => exact h.congr rfl rfl
  | counted _ =>
    refine h.mapReleases (g := _) (fun x => ?_) (fun x => ?_) rfl rfl
    · split <;> rfl
    · split <;> rfl
  | entered _ _ => exact h.congr (enter_releases _) (enter_objects _)
  | @released a ha hup =>
    exact h.add (x := c.newRelease a) (hmore a ha hup) (release_releases a) (release_objects a) hd.paths
  | @withdrawn x hx _ =>
    obtain ⟨p, -, hwithin⟩ := hx.mayRemove
    refine h.drop horderly [x] ?_ ?_ rfl
    · intro y hy
      rw [List.mem_singleton.1 hy]
      exact mem_of_mem_filter hwithin
    · simp [dropObject, dropRelease]
  | unfiled hx hdown => exact absurd (.inl ⟨_, hx, hdown⟩) hwhole
  | @cleared p hp _ =>
    refine h.drop horderly (c.releasesOf p) (fun x hx => mem_of_mem_filter hx) ?_ ?_
    · rw [dropReleases_eq]
      rfl
    · rw [dropReleases_eq]
      rfl
  | @emptied p hp hdown =>
    -- every release of the package has its archive, so none is removed at all
    refine h.congr rfl (Table.foldl_erase_of_not_contains fun x hx => ?_)
    have hrow : x ∈ c.releases := mem_of_mem_filter (mem_of_mem_take hx)
    exact absurd (.inr ⟨p, hp, hdown, x, hx, h.contains hrow⟩) hwhole

end InStep

namespace Catalog

variable {c : Catalog} {r : Request}

theorem filing_of_uploads {a} (ha : c.Uploads r a) (hup : r.store.carriesOut 1 = true)
    (hnames : ((c.serve r).2.packages.map (·.name)).Nodup) : (c.nextRelease, a.submission.archive) ∈ c.filing r := by
  have hstatus : c.replyStatus r = 201 := by
    rw [replyStatus, if_pos hnames, outcome_of_uploads ha, if_pos hup]
  obtain ⟨-, u, s, -, hs, ha⟩ := ha
  have hadmitted := admitted_of_admit ha
  simp [filing, hs, hstatus, hadmitted.submission]

/-- In step before a request, rows and archives are in step after it exactly if it does not leave them apart. -/
theorem inStep_after_iff (horderly : Orderly c) {filed} (h : InStep c filed) :
    InStep (c.after (.request r)) (filed ++ c.filing r) ↔ ¬ c.Parts r := by
  constructor
  · intro hafter hparts
    exact not_inStep_of_parts horderly h hparts hafter
  · intro hwhole
    have hd := horderly.after (.request r)
    by_cases hnames : ((c.serve r).2.packages.map (·.name)).Nodup
    · rw [after_eq_outcome hnames] at hd ⊢
      exact h.change horderly (c.outcome_change r) hd hwhole fun a ha hup => filing_of_uploads ha hup hnames
    · rw [after, if_neg hnames]
      exact h.congr rfl rfl

/-! ## Runs -/

/-- The archives that are filed in a run, with the numbers of their releases. -/
def filings (c : Catalog) : List Event → List (Nat × Archive)
  | [] => []
  | .request r :: events => c.filing r ++ (c.after (.request r)).filings events
  | .users users :: events => (c.after (.users users)).filings events
  | .archives objects :: events => (c.after (.archives objects)).filings events

/-- Nothing in a run leaves rows and archives apart: no request does, and only requests touch the archives. -/
def Spared (c : Catalog) : List Event → Prop
  | [] => True
  | .request r :: events => ¬ c.Parts r ∧ (c.after (.request r)).Spared events
  | .users users :: events => (c.after (.users users)).Spared events
  | .archives _ :: _ => False

theorem inStep_afterAll (horderly : Orderly c) {filed} (h : InStep c filed) {events}
    (hspared : c.Spared events) : InStep (c.afterAll events) (filed ++ c.filings events) := by
  induction events generalizing c filed with
  | nil => exact h.congr rfl rfl
  | cons event events ih =>
    cases event with
    | request r =>
      obtain ⟨hwhole, hspared⟩ := hspared
      rw [filings, ← List.append_assoc]
      exact ih (horderly.after (.request r)) ((inStep_after_iff horderly h).2 hwhole) hspared
    | users users =>
      have hsame : InStep (c.after (.users users)) (filed ++ []) := h.congr rfl rfl
      rw [append_nil] at hsame
      exact ih (horderly.after (.users users)) hsame hspared
    | archives objects => exact hspared.elim

end Catalog

/-- What is known of rows and archives after a run. -/
structure Stocked (events : List Event) (c : Catalog) : Prop where
  /-- a request that is answered with an error leaves packages, releases and archives as they are, unless it is half
  done -/
  failed : ∀ r, 400 ≤ c.replyStatus r → (Catalog.SameStock c (c.after (.request r)) ↔ ¬ c.HalfDone r)
  /-- rows and archives stay in step, unless the row of a release goes without its archive or the other way round -/
  step : ∀ filed r, InStep c filed → (InStep (c.after (.request r)) (filed ++ c.filing r) ↔ ¬ c.Parts r)
  /-- they are in step when no request of the run was such a one -/
  run : (Catalog.start []).Spared events → InStep c ((Catalog.start []).filings events)

/-- Whatever requests come and wherever the store stops answering, rows and archives are in step until a request
removes the one without the other. -/
theorem rows_and_archives_in_step (events : List Event) : Stocked events ((Catalog.start []).afterAll events) := by
  have horderly := (Orderly.start []).afterAll events
  refine ⟨fun r hfails => sameStock_iff horderly hfails, ?_, ?_⟩
  · intro filed r h
    exact inStep_after_iff horderly h
  · intro hspared
    have hstart : InStep (.start []) [] := by
      refine ⟨fun x hx => ?_, fun path hpath => ?_⟩
      · cases hx
      · cases hpath
    exact inStep_afterAll (.start []) hstart hspared

/-- A user has uploaded the first release of a package. -/
def publishedCatalog : Catalog :=
  (Catalog.start []).afterAll [.users [⟨1, "ann", some "a", false, false⟩],
    .request { keylessUpload with key := some "a" }]

/-- The user removes the release while the store does not answer. -/
def failedRemoval : Request :=
  { method := "POST", path := "/api/delete", key := some "a",
    doc := some (.obj [("package", .str "pkg"), ("version", .str "1")]), file := none, storeDown := true }

/-- The reply says that the release is not removed, but its row is gone, and its archive is left without one. -/
theorem failed_removal_drops_row : publishedCatalog.replyStatus failedRemoval = 500 ∧
    ¬ Catalog.SameStock publishedCatalog (publishedCatalog.after (.request failedRemoval)) ∧
    ∀ filed, ¬ InStep (publishedCatalog.after (.request failedRemoval)) filed := by
  have heval : publishedCatalog.replyStatus failedRemoval = 500 ∧ publishedCatalog.releases.length = 1 ∧
      (publishedCatalog.after (.request failedRemoval)).releases.length = 0 ∧
      (publishedCatalog.after (.request failedRemoval)).objects.contains "pkg/1.zip" = true := by decide +kernel
  obtain ⟨hstatus, hbefore, hrows, harchive⟩ := heval
  refine ⟨hstatus, ?_, ?_⟩
  · rintro ⟨-, hreleases, -⟩
    rw [hreleases, hbefore] at hrows
    cases hrows
  · intro filed hstep
    obtain ⟨x, hx, -⟩ := hstep.owned _ harchive
    rw [List.length_eq_zero_iff.1 hrows] at hx
    cases hx

end SmallScript.Registry
