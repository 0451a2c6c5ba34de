import Mathlib.Algebra.GroupWithZero.Nat
import SmallScript.Proofs.Registry.Access

/-!
# The counts of downloads

A package and its releases count downloads in rows of their own, and releases come and go. The count of a package is
the number of the requests that found a release of it since its row was made; it is what the releases that are left
have counted, and what those that were removed had counted when they went, `downloads_accounted`.
-/

namespace SmallScript.Registry

open List Catalog

/-! ## What releases count -/

/-- The downloads that the releases of a package have counted, of those in a list. -/
def counted (package : Nat) (xs : List Release) : Nat := ((xs.filter (·.package == package)).map (·.downloads)).sum

section
variable {package : Nat} {x : Release} {xs ys : List Release}

theorem counted_cons :
    counted package (x :: xs) = (if x.package = package then x.downloads else 0) + counted package xs := by
  unfold counted
  by_cases h : x.package = package
  · simp [h]
  · simp [h]

theorem counted_append : counted package (xs ++ ys) = counted package xs + counted package ys := by
  simp [counted]

/-- Releases that stay and releases that go make up all. -/
theorem counted_filter_add (keep : Release → Bool) :
    counted package (xs.filter keep) + counted package (xs.filter fun x => !keep x) = counted package xs := by
  induction xs with
  | nil => rfl
  | cons x xs ih =>
    cases hkeep : keep x with
    | true =>
      simp only [filter_cons, hkeep, counted_cons, if_true, Bool.not_true, Bool.false_eq_true, if_false]
      omega
    | false =>
      simp only [filter_cons, hkeep, counted_cons, if_true, Bool.not_false, Bool.false_eq_true, if_false]
      omega

/-- A download of one release of a list is counted once. -/
theorem counted_bump (hids : (xs.map (·.id)).Nodup) (hx : x ∈ xs) :
    counted package (xs.map fun y => if y.id = x.id then { y with downloads := y.downloads + 1 } else y) =
      counted package xs + if x.package = package then 1 else 0 := by
  induction xs with
  | nil => cases hx
  | cons y xs ih =>
    rw [map_cons, nodup_cons] at hids
    rw [map_cons, counted_cons, counted_cons]
    by_cases hid : y.id = x.id
    · have heq : x = y := by
        rcases mem_cons.1 hx with heq | hx
        · exact heq
        · exact absurd (mem_map.2 ⟨x, hx, hid.symm⟩) hids.1
      subst heq
      have hrest : xs.map (fun y => if y.id = x.id then { y with downloads := y.downloads + 1 } else y) = xs := by
        refine (map_congr_left fun z hz => if_neg fun heq => ?_).trans (map_id xs)
        exact hids.1 (mem_map.2 ⟨z, hz, heq⟩)
      rw [hrest]
      simp only [if_true]
      split <;> omega
    · have hx : x ∈ xs := (mem_cons.1 hx).resolve_left fun heq => hid (heq ▸ rfl)
      rw [ih hids.2 hx]
      simp only [hid, if_false]
      omega

end

/-! ## Downloads and removals -/

namespace Catalog

variable {c : Catalog} {r : Request} {package : Nat}

/-- The number of downloads of a package by an event: one if it is a request that downloads one of its releases. -/
def hit (c : Catalog) (package : Nat) : Event → Nat
  | .request r => if (c.downloaded? r).any (·.package == package) then 1 else 0
  | _ => 0

/-- The releases that an event removes. -/
def removed (c : Catalog) (event : Event) : List Release :=
  c.releases.filter fun x => (c.after event).releases.all fun y => y.id != x.id

theorem after_of_downloaded? (h : Orderly c) {x} (hx : c.downloaded? r = some x) :
    c.after (.request r) = c.countDownload x := by
  have hserve : (c.serve r).2 = c.countDownload x := congrArg Prod.snd (outcome_of_downloaded? hx)
  rw [after, hserve, if_pos (h.countDownload x).names]

theorem after_change (c : Catalog) (r : Request) : ∃ status, Change c r status (c.after (.request r)) := by
  rw [after]
  split
  · exact ⟨_, c.outcome_change r⟩
  · exact ⟨500, .nothing 500⟩

/-! ### Removed releases -/

theorem removed_eq_nil {event} (h : ∀ x ∈ c.releases, ∃ y ∈ (c.after event).releases, y.id = x.id) :
    c.removed event = [] := by
  refine filter_eq_nil_iff.2 fun x hx hall => ?_
  obtain ⟨y, hy, hid⟩ := h x hx
  have hne := all_eq_true.1 hall y hy
  simp [hid] at hne

theorem removed_eq_filter {event} {keep : Nat → Bool}
    (h : (c.after event).releases = c.releases.filter fun x => keep x.id) :
    c.removed event = c.releases.filter fun x => !keep x.id := by
  refine filter_congr fun x hx => ?_
  rw [h]
  cases hkeep : keep x.id with
  | true =>
    rw [Bool.not_true, all_eq_false]
    exact ⟨x, mem_filter.2 ⟨hx, hkeep⟩, by simp⟩
  | false =>
    rw [Bool.not_false, all_eq_true]
    intro y hy
    refine bne_iff_ne.2 fun hid => ?_
    rw [← hid, (mem_filter.1 hy).2] at hkeep
    cases hkeep

end Catalog

theorem Change.nextPackage_le {c d r status} (h : Change c r status d) : c.nextPackage ≤ d.nextPackage := by
  have hentered : ∀ a, c.nextPackage ≤ (c.enter a).1.nextPackage := by
    intro a
    unfold enter
    split
    · exact le_refl _
    · exact Nat.le_succ _
  cases h with
  | nothing | renewed | emptied | withdrawn | unfiled | counted => exact le_refl _
  | entered _ _ | released _ _ => exact hentered _
  | cleared _ _ =>
    rw [dropReleases_eq]
    exact le_refl _

/-- Requests that download nothing remove releases by their numbers, or add one. -/
theorem Change.releases {c d r status} (h : Change c r status d)
    (hnone : c.downloaded? r = none) : (∃ keep : Nat → Bool, d.releases = c.releases.filter fun x => keep x.id) ∨
      ∃ a, d.releases = c.releases ++ [c.newRelease a] := by
  have hsame : c.releases = c.releases.filter fun _ => true := (filter_eq_self.2 fun _ _ => rfl).symm
  cases h with
  | nothing | renewed | emptied => exact .inl ⟨fun _ => true, hsame⟩
  | counted hdownloaded =>
    rw [hdownloaded] at hnone
    cases hnone
  | entered _ _ => exact .inl ⟨fun _ => true, (enter_releases _).trans hsame⟩
  | released _ _ => exact .inr ⟨_, release_releases _⟩
  | @withdrawn x _ _ | @unfiled x _ _ => exact .inl ⟨fun id => id != x.id, rfl⟩
  | @cleared p _ _ =>
    rw [dropReleases_eq]
    exact .inl ⟨fun id => (c.releasesOf p).all fun x => id != x.id, rfl⟩

namespace Catalog

variable {c : Catalog} {r : Request} {package : Nat}

theorem counted_step_of_same (event : Event) (h : (c.after event).releases = c.releases)
    (hhit : c.hit package event = 0) :
    counted package c.releases + c.hit package event =
      counted package (c.after event).releases + counted package (c.removed event) := by
  rw [removed_eq_nil fun x hx => ⟨x, h ▸ hx, rfl⟩, h, hhit]
  rfl

/-- What releases count changes by the downloads and by the releases that are removed. -/
theorem counted_step (h : Orderly c) (package : Nat) (event : Event) :
    counted package c.releases + c.hit package event =
      counted package (c.after event).releases + counted package (c.removed event) := by
  cases event with
  | users users | archives objects => exact counted_step_of_same _ rfl rfl
  | request r =>
    cases hx : c.downloaded? r with
    | some x =>
      have hreleases : (c.after (.request r)).releases =
          c.releases.map fun y => if y.id = x.id then { y with downloads := y.downloads + 1 } else y := by
        rw [after_of_downloaded? h hx]
        rfl
      have hkept : c.removed (.request r) = [] := by
        refine removed_eq_nil fun y hy => ?_
        rw [hreleases]
        refine ⟨_, mem_map_of_mem hy, ?_⟩
        split <;> rfl
      have hhit : c.hit package (.request r) = if x.package = package then 1 else 0 := by simp [hit, hx]
      rw [hkept, hreleases, counted_bump h.releaseIds (mem_of_downloaded? hx), hhit]
      rfl
    | none =>
      have hhit : c.hit package (.request r) = 0 := by simp [hit, hx]
      obtain ⟨status, hchange⟩ := c.after_change r
      rcases hchange.releases hx with ⟨keep, hkeep⟩ | ⟨a, ha⟩
      · rw [removed_eq_filter hkeep, hkeep, hhit]
        exact (counted_filter_add fun x => keep x.id).symm
      · have hnew : counted package [c.newRelease a] = 0 := by
          rw [counted_cons]
          split <;> rfl
        rw [removed_eq_nil fun x hx => ⟨x, ha ▸ mem_append_left _ hx, rfl⟩, ha, counted_append, hnew, hhit]
        rfl

/-! ## What packages count -/

/-- A package counts what it counted before, and a download of one of its releases; a new one has counted nothing. -/
theorem package_step (h : Orderly c) (event : Event) {p} (hp : p ∈ (c.after event).packages) :
    (∃ q ∈ c.packages, q.id = p.id ∧ p.downloads = q.downloads + c.hit p.id event) ∨
      p.id = c.nextPackage ∧ p.downloads = 0 := by
  cases event with
  | users users | archives objects => exact .inl ⟨p, hp, rfl, rfl⟩
  | request r =>
    cases hx : c.downloaded? r with
    | some x =>
      rw [after_of_downloaded? h hx] at hp
      obtain ⟨q, hq, rfl⟩ := mem_map.1 hp
      refine .inl ⟨q, hq, ?_, ?_⟩
      · split <;> rfl
      · by_cases hid : q.id = x.package
        · simp [hit, hx, hid]
        · simp [hit, hx, hid, Ne.symm hid]
    | none =>
      obtain ⟨status, hchange⟩ := c.after_change r
      rcases hchange.package_before hp with ⟨q, hq, n, latest, rfl, hn⟩ | hnew
      · rw [hn hx]
        exact .inl ⟨q, hq, rfl, by simp [hit, hx]⟩
      · exact .inr hnew

/-- A package that is not there has no release to download. -/
theorem hit_eq_zero (h : Orderly c) (event : Event) (hnew : c.nextPackage ≤ package) : c.hit package event = 0 := by
  cases event with
  | users users | archives objects => rfl
  | request r =>
    cases hx : c.downloaded? r with
    | none => simp [hit, hx]
    | some x =>
      obtain ⟨p, hp, hold⟩ := h.held x (mem_of_downloaded? hx)
      have hlt := h.fresh p hp
      have hne : x.package ≠ package := by
        rw [hold.package]
        omega
      simp [hit, hx, hne]

theorem nextPackage_le_after (c : Catalog) (event : Event) : c.nextPackage ≤ (c.after event).nextPackage := by
  cases event with
  | users users | archives objects => exact le_refl _
  | request r =>
    obtain ⟨status, hchange⟩ := c.after_change r
    exact hchange.nextPackage_le

/-! ## Runs -/

/-- The number of requests of a run that download a release of a package. -/
def hits (c : Catalog) (package : Nat) : List Event → Nat
  | [] => 0
  | event :: events => c.hit package event + (c.after event).hits package events

/-- What the releases of a package had counted that are removed in a run. -/
def forgone (c : Catalog) (package : Nat) : List Event → Nat
  | [] => 0
  | event :: events => counted package (c.removed event) + (c.after event).forgone package events

/-- No release of a package is removed in a run. -/
def Retains (c : Catalog) (package : Nat) : List Event → Prop
  | [] => True
  | event :: events => (∀ x ∈ c.removed event, x.package ≠ package) ∧ (c.after event).Retains package events

theorem counted_run (h : Orderly c) (package : Nat) (events : List Event) :
    counted package c.releases + c.hits package events =
      counted package (c.afterAll events).releases + c.forgone package events := by
  induction events generalizing c with
  | nil => rfl
  | cons event events ih =>
    have hstep := counted_step h package event
    have hrest := ih (h.after event)
    simp only [hits, forgone]
    have hall : c.afterAll (event :: events) = (c.after event).afterAll events := rfl
    rw [hall]
    omega

theorem package_run (h : Orderly c) (events : List Event) {p} (hp : p ∈ (c.afterAll events).packages) :
    (∃ q ∈ c.packages, q.id = p.id ∧ p.downloads = q.downloads + c.hits p.id events) ∨
      c.nextPackage ≤ p.id ∧ p.downloads = c.hits p.id events := by
  induction events generalizing c with
  | nil => exact .inl ⟨p, hp, rfl, rfl⟩
  | cons event events ih =>
    rw [hits]
    rcases ih (h.after event) hp with ⟨q, hq, hid, hcount⟩ | ⟨hnew, hcount⟩
    · rcases package_step h event hq with ⟨q', hq', hid', hcount'⟩ | ⟨hnext, hzero⟩
      · refine .inl ⟨q', hq', hid'.trans hid, ?_⟩
        rw [hcount, hcount', hid, add_assoc]
      · have hle : c.nextPackage ≤ p.id := by omega
        refine .inr ⟨hle, ?_⟩
        rw [hcount, hzero, hit_eq_zero h event hle]
    · have hle : c.nextPackage ≤ p.id := le_trans (c.nextPackage_le_after event) hnew
      refine .inr ⟨hle, ?_⟩
      rw [hcount, hit_eq_zero h event hle, zero_add]

theorem forgone_eq_zero {events} (h : c.Retains package events) : c.forgone package events = 0 := by
  induction events generalizing c with
  | nil => rfl
  | cons event events ih =>
    obtain ⟨hkept, hrest⟩ := h
    have hnone : (c.removed event).filter (·.package == package) = [] := by
      refine filter_eq_nil_iff.2 fun x hx => ?_
      simpa using hkept x hx
    rw [forgone, ih hrest, counted, hnone]
    rfl

end Catalog

/-- The counts of packages and releases after a run. -/
structure Accounted (events : List Event) (c : Catalog) : Prop where
  /-- from any time before its row was made, a package has counted the requests that found a release of it -/
  count : ∀ prior later, events = prior ++ later → ∀ p ∈ c.packages,
    (∀ q ∈ ((Catalog.start []).afterAll prior).packages, q.id ≠ p.id) →
    p.downloads = ((Catalog.start []).afterAll prior).hits p.id later
  /-- that is what its releases have counted, together with those that were removed -/
  balance : ∀ p ∈ c.packages,
    ((c.releasesOf p).map (·.downloads)).sum + (Catalog.start []).forgone p.id events = p.downloads
  /-- the releases have not counted more than the package -/
  atLeast : ∀ p ∈ c.packages, ((c.releasesOf p).map (·.downloads)).sum ≤ p.downloads
  /-- and have counted as much if none was removed -/
  equal : ∀ p ∈ c.packages, (Catalog.start []).Retains p.id events →
    ((c.releasesOf p).map (·.downloads)).sum = p.downloads

theorem downloads_accounted (events : List Event) : Accounted events ((Catalog.start []).afterAll events) := by
  have hstart : Orderly (.start []) := .start []
  have hcount : ∀ prior later, events = prior ++ later → ∀ p ∈ ((start []).afterAll events).packages,
      (∀ q ∈ ((start []).afterAll prior).packages, q.id ≠ p.id) →
      p.downloads = ((start []).afterAll prior).hits p.id later := by
    rintro prior later rfl p hp hnew
    rw [afterAll, foldl_append] at hp
    rcases package_run (hstart.afterAll prior) later hp with ⟨q, hq, hid, -⟩ | ⟨-, hcount⟩
    · exact absurd hid (hnew q hq)
    · exact hcount
  have hbalance : ∀ p ∈ ((start []).afterAll events).packages,
      ((((start []).afterAll events).releasesOf p).map (·.downloads)).sum +
        (start []).forgone p.id events = p.downloads := by
    intro p hp
    have hhits := hcount [] events rfl p hp fun q hq => by cases hq
    have hrun := counted_run hstart p.id events
    rw [hhits]
    have hzero : counted p.id (start []).releases = 0 := rfl
    rw [hzero, zero_add] at hrun
    exact hrun.symm
  refine ⟨hcount, hbalance, fun p hp => ?_, fun p hp hretains => ?_⟩
  · have h := hbalance p hp
    omega
  · have h := hbalance p hp
    rwa [forgone_eq_zero hretains] at h

end SmallScript.Registry
