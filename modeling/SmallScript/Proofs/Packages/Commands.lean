import SmallScript.Proofs.Packages.Agreement

/-!
# What commands do

A command either does nothing, removes a package, or places one; an upgrade clears the old directory away before it
downloads, and a package is entered in the list before it is unpacked. `Turns` says what each of these leaves in the list
and in the store: `Command.run_turns`.
-/

namespace SmallScript.Packages

open Machine Library List
open Data (Table)
open World (FileStore Entry IsStep Response Body Request)
open World.FileStore Managing Json
open Json (Written Canonical)

/-! ## Commands and what they do -/

/-- A command that changes the installed packages. -/
inductive Command where
  | install (text server : String) (upgrade : Bool)
  | uninstall (text : String)

/-- Carries out a command. Yields whether it reports success. -/
def Command.run : Command → Managing Bool
  | .install text server upgrade => Packages.install text server upgrade
  | .uninstall text => Packages.uninstall text

/-- The text that names the package. -/
def Command.text : Command → String
  | .install text _ _ => text
  | .uninstall text => text

/-- The command is to upgrade a package in the list. -/
def Command.Upgrades (k : Command) (c : Config) : Prop :=
  ∃ text server p, k = .install text server true ∧ PackageName.parse text = .ok p ∧ text ∈ c.names ∧ p.name ∈ c.names

/-- The name of the package is that of a directory. -/
def Command.Plain (k : Command) : Prop := ∀ p, PackageName.parse k.text = .ok p → IsStep p.name

/-- The version and the archive that the network has of a package. -/
def served? (w : World) (server : String) (p : PackageName) : Option (String × Body) :=
  match answerTo w ⟨"GET", archiveUrl (serverAddress server) p, none, none⟩ with
  | .fine r => some (p.version.getD (versionOfUrl r.url), r.body)
  | _ => none

/-- The list of `c` stands in `s'`, and of the directories of packages in `s` only that of `name` may have changed. -/
structure Rewritten (c : Config) (s : FileStore) (name : String) (s' : FileStore) : Prop where
  step : IsStep name
  inside : Inside s.packageDir s s'
  list : ∃ text, Written (.obj c.fields) text ∧ s'.get? (listPath s) = some (.file text.toUTF8)
  installed : s'.get? (installedPath s) = some .dir
  others : ∀ n, n ≠ name → s'.get? (homePath s n) = s.get? (homePath s n)

/-- What a network has of packages, by server. -/
abbrev Network := String → PackageName → Option (String × Body)

/-- What comes of a command: the result, the list that it knows, and the store. -/
inductive Turns (c : Config) (s : FileStore) (net : Network) : Command → Except Signal Bool → Config → FileStore → Prop where
  /-- it is turned away -/
  | nothing {k : Command} {r : Except Signal Bool} {s' : FileStore} (hk : ¬ k.Upgrades c) (hr : r ≠ .ok true)
    (hin : Inside s.packageDir s s') (hsame : ∀ q, s'.get? q = s.get? q) : Turns c s net k r c s'
  /-- the old directory is cleared away, and nothing is downloaded -/
  | lost {text server : String} {p : PackageName} {r : Except Signal Bool} {s' : FileStore}
    (hp : PackageName.parse text = .ok p) (hname : p.name ∈ c.names) (hserved : net server p = none) (hr : r ≠ .ok true)
    (hin : Inside s.packageDir s s') (hgone : ∀ q, s'.get? q = if homePath s p.name <+: q then none else s.get? q) :
    Turns c s net (.install text server true) r (c.strike p.name) s'
  /-- the package is entered in the list and unpacked, maybe after the old directory was cleared away -/
  | placed {text server version : String} {upgrade cleared : Bool} {p : PackageName} {body : Body} {r : Except Signal Bool}
    {c' : Config} {s' : FileStore} (hp : PackageName.parse text = .ok p) (hserved : net server p = some (version, body))
    (hc : c' = (if cleared then c.strike p.name else c).enter p.name version) (hs : Rewritten c' s p.name s')
    (hhome : (p.name ∈ c.names ∧ cleared = false) ∨ (r = .ok true ∧ MakesDir body) →
      s'.get? (homePath s p.name) = some .dir) :
    Turns c s net (.install text server upgrade) r c' s'
  /-- the package is taken off the list with its directory -/
  | removed {text : String} {p : PackageName} {s' : FileStore} (hp : PackageName.parse text = .ok p)
    (hs : Rewritten (c.strike p.name) s p.name s') (hhome : s'.get? (homePath s p.name) = none) :
    Turns c s net (.uninstall text) (.ok true) (c.strike p.name) s'

/-- What comes of a command, from what its action returns. -/
def Turned (c : Config) (s : FileStore) (net : Network) (k : Command) (x : (Except Signal Bool × Config) × Machine) : Prop :=
  Turns c s net k x.1.1 x.1.2 x.2.world.files

/-! ## Actions that leave the files alone -/

/-- The action leaves the files alone. -/
def Quiet {α : Type} (a : Action α) : Prop := ∀ m, (a m).2.world.files = m.world.files

namespace Quiet

variable {α β : Type} {a : Action α} {f : α → Action β}

theorem pure (x : α) : Quiet (Pure.pure x : Action α) := fun _ => rfl

theorem fail (f : Failure) : Quiet (Action.fail f : Action α) := fun _ => rfl

theorem access (r : Except AccessFault α) : Quiet (Action.access r) := by
  cases r with
  | ok x => exact .pure x
  | error f => exact .fail _

theorem ofNumber (r : Except Number.NumberFault α) : Quiet (Action.ofNumber r) := by
  cases r with
  | ok x => exact .pure x
  | error f => exact .fail _

theorem printLine (text : String) : Quiet (Action.printLine text) := fun _ => rfl

theorem askFor (url : String) : Quiet (askFor url) := fun _ => rfl

theorem bind (ha : Quiet a) (hf : ∀ x, Quiet (f x)) : Quiet (a >>= f) := by
  intro m
  rcases hr : a m with ⟨r, m'⟩
  have hm' := ha m
  rw [hr] at hm'
  cases r with
  | error e =>
    rw [Action.bind_of_error hr]
    exact hm'
  | ok x =>
    rw [Action.bind_of_ok hr]
    exact (hf x m').trans hm'

end Quiet

theorem Quiet.reportInstalled (c : Config) (text : String) (p : PackageName) : Quiet (reportInstalled c text p) := by
  unfold Packages.reportInstalled
  split
  · exact .printLine _
  · refine .bind (.access _) fun doc => ?_
    exact .bind (.ofNumber _) fun version => .printLine _

theorem Quiet.reportVersions (server name version : String) : Quiet (reportVersions server name version) := by
  unfold Packages.reportVersions
  refine .bind (.askFor _) fun answer => ?_
  split
  · split
    · refine .bind (.access _) fun versions => ?_
      refine .bind (.printLine _) fun _ => ?_
      exact .bind (.access _) fun text => .printLine _
    · exact .printLine _
  · exact .printLine _

/-! ## Actions of a command -/

namespace Managing

variable {α β : Type} {a : Managing α} {c c' : Config} {m m' : Machine}

theorem bind_of_ok {x : α} (h : a c m = ((.ok x, c'), m')) (f : α → Managing β) : (a >>= f) c m = f x c' m' := by
  show ExceptT.bindCont f (a c m).1.1 (a c m).1.2 (a c m).2 = _
  rw [h]
  rfl

theorem bind_of_error {e : Signal} (h : a c m = ((.error e, c'), m')) (f : α → Managing β) :
    (a >>= f) c m = ((.error e, c'), m') := by
  show ExceptT.bindCont f (a c m).1.1 (a c m).1.2 (a c m).2 = _
  rw [h]
  rfl

theorem lift_of_eq {a : Action α} {r : Except Signal α} (h : a m = (r, m')) :
    (liftM a : Managing α) c m = ((r, c), m') := by
  show (((a m).1, c), (a m).2) = _
  rw [h]

theorem lift_bind {a : Action α} {x : α} (h : a m = (.ok x, m')) (f : α → Managing β) :
    ((liftM a : Managing α) >>= f) c m = f x c m' :=
  bind_of_ok (lift_of_eq h) f

theorem known_bind (f : Config → Managing β) : (known >>= f) c m = f c c m := rfl

theorem learn_bind (f : Unit → Managing β) : (learn c' >>= f) c m = f () c' m := rfl

end Managing

section

variable {c : Config} {m : Machine} {text name : String} {p : PackageName}

theorem isInstalled_run (hc : c.Regular) : isInstalled c text m = (.ok (decide (text ∈ c.names)), m) := by
  unfold isInstalled
  rw [hc.installed_eq]
  cases hpackages : c.packages with
  | nil =>
    simp [Config.names, hpackages, Json.isEmpty]
    rfl
  | cons e es =>
    have hholds : (Json.obj (e :: es)).holds text = .ok (decide (text ∈ c.names)) := by
      rw [Json.holds, Config.names, hpackages]
      congr 1
      rw [Bool.eq_iff_iff, any_eq_true, decide_eq_true_eq, mem_map]
      simp only [beq_iff_eq]
    simp only [Json.isEmpty, isEmpty_cons, Bool.false_eq_true, hholds]
    rfl

theorem any_packages_iff : c.packages.any (·.1 == name) = true ↔ name ∈ c.names := by
  simp only [any_eq_true, beq_iff_eq, Config.names, mem_map]

theorem access_dropPart (hc : c.Regular) (hname : name ∈ c.names) :
    Action.access (c.installed.dropPart name) m = (.ok (.obj (c.packages.filter (·.1 != name))), m) := by
  rw [hc.installed_eq, dropPart, if_pos (any_packages_iff.2 hname)]
  rfl

theorem access_dropPart_missing (hc : c.Regular) (hname : name ∉ c.names) :
    ∃ e, Action.access (c.installed.dropPart name) m = (.error e, m) := by
  rw [hc.installed_eq, dropPart, if_neg fun h => hname (any_packages_iff.1 h)]
  exact ⟨_, rfl⟩

theorem packageDir_run (h : Sited m.world.files) (hstep : IsStep name) :
    packageDir name m = (.ok ("/".intercalate (homePath m.world.files name)), m) := by
  rw [← h.homeText hstep]
  rfl

/-- What a download meets: the store and the list that the command knows, after the directory was cleared away or not. -/
structure Cleared (c : Config) (s : FileStore) (name : String) (cleared : Bool) (c₁ : Config) (s₁ : FileStore) : Prop where
  listed : cleared = true → name ∈ c.names
  config : c₁ = if cleared then c.strike name else c
  inside : Inside s.packageDir s s₁
  get : ∀ q, s₁.get? q = if cleared = true ∧ homePath s name <+: q then none else s.get? q

/-- The directory of a package that is in the list is cleared away. -/
theorem clearForUpgrade_listed (h : Agrees c m.world.files) (hstep : IsStep p.name) (hname : p.name ∈ c.names) :
    ∃ s1, clearForUpgrade p c m = ((.ok (), c.strike p.name), withFiles m s1) ∧
      Cleared c m.world.files p.name true (c.strike p.name) s1 := by
  set s := m.world.files
  have hdir := h.homes p.name hstep
  rw [if_pos hname] at hdir
  have hinstalled := h.installed _ hname
  have hunder := h.sited.homeUnder hstep
  have hhoused : s.Housed (homePath s p.name) := h.sited.homeHoused hinstalled
  have hexists : s.exists? ("/".intercalate (homePath s p.name)) = true :=
    (exists?_iff hunder).2 ⟨hhoused, by rw [hdir]; rfl⟩
  set s1 := s.eraseTree (homePath s p.name) with hs1
  have hremove : changeFiles (·.removeTree ("/".intercalate (homePath s p.name))) m = (.ok (), withFiles m s1) :=
    changeFiles_ok (removeTree_of_dir hunder hhoused hdir)
  have hin : Inside s.packageDir s s1 :=
    .eraseTree packageDir_above.2.2 (by simp [homePath, installedPath])
  have hkept : s1.get? (installedPath s) = some .dir := by
    rw [get?_eraseTree hunder.ne_nil, if_neg homePath_not_above.2, hinstalled]
  obtain ⟨s', hmake, hin', hget⟩ := makeInstalledDir_run (m := withFiles m s1) (h.sited.inside hin (.inl hkept))
  refine ⟨s', ?_, fun _ => hname, rfl, hin.trans hin', fun q => ?_⟩
  · unfold clearForUpgrade
    rw [lift_bind (packageDir_run h.sited hstep), lift_bind store_run, if_pos hexists,
      lift_bind hremove, known_bind, lift_bind (access_dropPart h.regular hname),
      learn_bind]
    exact lift_of_eq hmake
  · simp only [hget, true_and]
    rw [← get?_eraseTree hunder.ne_nil]
    split
    · next hq =>
      rw [hq]
      exact hkept.symm
    · rfl

/-- There is nothing to clear away of a package that is not in the list. -/
theorem clearForUpgrade_unlisted (h : Agrees c m.world.files) (hstep : IsStep p.name) (htext : text ∈ c.names)
    (hname : p.name ∉ c.names) :
    ∃ s1, clearForUpgrade p c m = ((.ok (), c), withFiles m s1) ∧ Cleared c m.world.files p.name false c s1 := by
  have hnone := h.homes p.name hstep
  rw [if_neg hname] at hnone
  have hmissing : ¬ m.world.files.exists? ("/".intercalate (homePath m.world.files p.name)) = true := by
    intro hexists
    have hsome := ((exists?_iff (h.sited.homeUnder hstep)).1 hexists).2
    rw [hnone] at hsome
    cases hsome
  obtain ⟨s', hmake, hin, hget⟩ := makeInstalledDir_run h.sited
  refine ⟨s', ?_, nofun, rfl, hin, fun q => ?_⟩
  · unfold clearForUpgrade
    rw [lift_bind (packageDir_run h.sited hstep), lift_bind store_run, if_neg hmissing]
    exact lift_of_eq hmake
  · simp only [hget, Bool.false_eq_true, false_and, if_false]
    split
    · next hq => rw [hq, h.installed _ htext]
    · rfl

theorem Cleared.home {s s1 : FileStore} {c1 : Config} {cleared : Bool} (h : Cleared c s name cleared c1 s1)
    (hs : Agrees c s) (hstep : IsStep name) (hlisted : name ∈ c.names) (hno : cleared = false) :
    s1.get? (homePath s name) = some .dir := by
  rw [h.get, hno, hs.homes name hstep]
  simp [hlisted]

/-! ## Downloads -/

variable {server : String}

theorem askFor_run (url : String) :
    askFor url m = (.ok (answerTo m.world ⟨"GET", url, none, none⟩),
      { m with world := (m.world.send ⟨"GET", url, none, none⟩).2 }) := rfl

theorem download_of_served {version : String} {body : Body} (h : served? m.world server p = some (version, body)) :
    ∃ r m', download (serverAddress server) p m = (.ok (some (version, r)), m') ∧ r.body = body ∧
      m'.world.files = m.world.files := by
  unfold served? at h
  split at h
  · next r hr =>
    cases h
    refine ⟨r, { m with world := (m.world.send ⟨"GET", archiveUrl (serverAddress server) p, none, none⟩).2 }, ?_, rfl, rfl⟩
    rw [download, Action.bind_of_ok (askFor_run _), hr]
    rfl
  · cases h

theorem download_of_not_served (h : served? m.world server p = none) :
    ∃ r m', download (serverAddress server) p m = (r, m') ∧ (r = .ok none ∨ ∃ e, r = .error e) ∧
      m'.world.files = m.world.files := by
  refine ⟨(download (serverAddress server) p m).1, (download (serverAddress server) p m).2, rfl, ?_⟩
  rw [download, Action.bind_of_ok (askFor_run _)]
  have hnone {a : Action Unit} (m : Machine) (ha : Quiet a) :
      let x := (do a; return none : Action (Option (String × Response))) m
      (x.1 = .ok none ∨ ∃ e, x.1 = .error e) ∧ x.2.world.files = m.world.files := by
    rcases hr : a m with ⟨r, m'⟩
    have hm' := ha m
    rw [hr] at hm'
    cases r with
    | error e =>
      rw [Action.bind_of_error hr]
      exact ⟨.inr ⟨e, rfl⟩, hm'⟩
    | ok x =>
      rw [Action.bind_of_ok hr]
      exact ⟨.inl rfl, hm'⟩
  unfold served? at h
  split at h
  · cases h
  · next hanswer =>
    cases hr : answerTo m.world ⟨"GET", archiveUrl (serverAddress server) p, none, none⟩ with
    | fine r => exact absurd hr (hanswer r)
    | none reason => exact hnone _ (.printLine _)
    | refused r message =>
      dsimp only
      cases hversion : p.version with
      | none =>
        dsimp only
        split
        · exact hnone _ (.printLine _)
        · exact hnone _ (.printLine _)
      | some v =>
        dsimp only
        split
        · exact hnone _ (.reportVersions _ _ _)
        · exact hnone _ (.printLine _)

/-! ## Placing and removing -/

/-- The store after the list was saved and the directory of installed packages was made. -/
structure Saved (c : Config) (s : FileStore) (text : String) (s' : FileStore) : Prop where
  written : Written (.obj c.fields) text
  inside : Inside s.packageDir s s'
  list : s'.get? (listPath s) = some (.file text.toUTF8)
  installed : s'.get? (installedPath s) = some .dir
  homes : ∀ n, s'.get? (homePath s n) = s.get? (homePath s n)

theorem save_then_make {c' : Config} (h : Sited m.world.files)
    (hfile : m.world.files.get? (listPath m.world.files) ≠ some .dir) (hc : c'.Regular) :
    ∃ text m1 s', c'.save m = (.ok (), m1) ∧ makeInstalledDir m1 = (.ok (), withFiles m s') ∧
      Saved c' m.world.files text s' := by
  obtain ⟨text, hw⟩ := hc.canonical.written
  obtain ⟨hunder, hhoused⟩ := h.list
  set s := m.world.files
  set s1 := s.set (listPath s) (.file text.toUTF8) with hs1
  have hin : Inside s.packageDir s s1 :=
    .set (packageDir_above (n := "")).1 hunder.ne_nil fun hdir => absurd hdir hfile
  have hinstalled : s1.get? (installedPath s) = s.get? (installedPath s) := by
    rw [get?_set hunder.ne_nil, if_neg listPath_ne.symm]
  have hsited := h.inside hin (by rw [hinstalled]; exact h.installed)
  obtain ⟨s', hmake, hin', hget⟩ := makeInstalledDir_run (m := withFiles m s1) hsited
  have hget' : ∀ q, s'.get? q = if q = installedPath s then some .dir else s1.get? q := by
    intro q
    rw [hget, files_withFiles, installedPath, packageDir_set]
    rfl
  refine ⟨text, _, s', save_run h hfile hw, hmake, hw, hin.trans ?_, ?_, ?_, fun n => ?_⟩
  · rwa [files_withFiles, packageDir_set] at hin'
  · rw [hget', if_neg listPath_ne, get?_set hunder.ne_nil, if_pos rfl]
  · rw [hget', if_pos rfl]
  · rw [hget', if_neg homePath_ne.1.symm, get?_set hunder.ne_nil, if_neg homePath_ne.2.symm]

/-- There is room for the directory of a package then. -/
theorem Saved.home {c' : Config} {s s' : FileStore} (h : Saved c' s text s') (hs : Sited s) (hstep : IsStep name) :
    s'.Under (homePath s name) ∧ s'.Housed (homePath s name) ∧
      packageDir name (withFiles m s') = (.ok ("/".intercalate (homePath s name)), withFiles m s') := by
  have hsited := hs.inside h.inside (.inl h.installed)
  obtain ⟨-, hinstalled, hhome⟩ := paths_of_inside h.inside
  have hrun := packageDir_run (m := withFiles m s') hsited hstep
  rw [files_withFiles, hhome] at hrun
  refine ⟨hhome name ▸ hsited.homeUnder hstep, hhome name ▸ hsited.homeHoused ?_, hrun⟩
  rw [hinstalled, h.installed]

/-- A package is in the list after it was placed, and there is a directory for it if there was one or if one comes of what
is unpacked. -/
theorem place_run (version : String) (body : Body) (h : Sited m.world.files)
    (hfile : m.world.files.get? (listPath m.world.files) ≠ some .dir) (hc : c.Regular) (hstep : IsStep name) :
    ∃ r m', place name version body c m = ((r, c.enter name version), m') ∧
      Rewritten (c.enter name version) m.world.files name m'.world.files ∧
      (m.world.files.get? (homePath m.world.files name) = some .dir ∨ (r = .ok () ∧ MakesDir body) →
        m'.world.files.get? (homePath m.world.files name) = some .dir) := by
  obtain ⟨text, m1, s1, hsave, hmake, hsaved⟩ := save_then_make h hfile (hc.enter name version)
  obtain ⟨hunder, hhoused, hdirRun⟩ := hsaved.home (m := m) h hstep
  have hset : Action.access (c.installed.setPart name (.str version)) m =
      (.ok (.obj (Json.setField c.packages name (.str version))), m) := by
    rw [hc.installed_eq]
    rfl
  have hunpack := unpack_inside body (m := withFiles m s1) hunder hhoused
  have hdir := fun hmakes : MakesDir body => unpack_dir (m := withFiles m s1) hmakes hunder hhoused
  rcases hrun : unpack ("/".intercalate (homePath m.world.files name)) body (withFiles m s1) with ⟨r, m'⟩
  rw [hrun] at hunpack hdir
  obtain ⟨r', m'', hplace, hr, hfiles⟩ : ∃ r' m'', place name version body c m = ((r', c.enter name version), m'') ∧
      (r' = .ok () → r = .ok ()) ∧ m''.world.files = m'.world.files := by
    unfold place
    rw [known_bind, lift_bind hset, learn_bind]
    have henter : c.withInstalled (.obj (Json.setField c.packages name (.str version))) = c.enter name version := rfl
    rw [henter, lift_bind hsave, lift_bind hmake, lift_bind hdirRun]
    cases r with
    | error e => exact ⟨_, _, Managing.bind_of_error (lift_of_eq hrun) _, nofun, rfl⟩
    | ok x => exact ⟨_, _, lift_bind hrun _, fun _ => rfl, rfl⟩
  rw [← hfiles] at hunpack hdir
  refine ⟨r', m'', hplace, ⟨hstep, hsaved.inside.trans ?_, ⟨text, hsaved.written, ?_⟩, ?_, ?_⟩, ?_⟩
  · exact hunpack.above packageDir_above.2.2 (by simp [homePath, installedPath])
  · rw [hunpack.outside _ homePath_not_above.1]
    exact hsaved.list
  · rw [hunpack.outside _ homePath_not_above.2]
    exact hsaved.installed
  · intro n hn
    rw [hunpack.outside _ fun habove => hn (homePath_above_iff.1 habove).symm]
    exact hsaved.homes n
  · rintro (hbefore | ⟨hok, hmakes⟩)
    · exact hunpack.kept ((hsaved.homes name).trans hbefore)
    · exact hdir hmakes (hr hok)

/-- A package that is in the list is removed with its directory. -/
theorem remove_run (text : String) (h : Agrees c m.world.files) (hstep : IsStep name) (hname : name ∈ c.names) :
    ∃ m', remove text name c m = ((.ok (), c.strike name), m') ∧
      Rewritten (c.strike name) m.world.files name m'.world.files ∧
      m'.world.files.get? (homePath m.world.files name) = none := by
  have hfile : m.world.files.get? (listPath m.world.files) ≠ some .dir := by
    obtain ⟨content, hcontent, -⟩ := h.list
    simp [hcontent]
  obtain ⟨list, m1, s1, hsave, hmake, hsaved⟩ := save_then_make h.sited hfile (h.regular.strike name)
  obtain ⟨hunder, hhoused, hdirRun⟩ := hsaved.home (m := m) h.sited hstep
  have hdir : s1.get? (homePath m.world.files name) = some .dir := by
    rw [hsaved.homes, h.homes name hstep, if_pos hname]
  have hremove := removeTree_of_dir hunder hhoused hdir
  have hne := hunder.ne_nil
  obtain ⟨m', hrun, hfiles⟩ : ∃ m', remove text name c m = ((.ok (), c.strike name), m') ∧
      m'.world.files = s1.eraseTree (homePath m.world.files name) := by
    unfold remove
    rw [known_bind, lift_bind (access_dropPart h.regular hname), learn_bind]
    have hstrike : c.withInstalled (.obj (c.packages.filter (·.1 != name))) = c.strike name := rfl
    rw [hstrike, lift_bind hsave, lift_bind hmake, lift_bind hdirRun,
      lift_bind store_run, files_withFiles, hremove]
    exact ⟨_, rfl, rfl⟩
  refine ⟨m', hrun, ?_⟩
  rw [hfiles]
  refine ⟨⟨hstep, hsaved.inside.trans ?_, ⟨list, hsaved.written, ?_⟩, ?_, ?_⟩, ?_⟩
  · exact .eraseTree packageDir_above.2.2 (by simp [homePath, installedPath])
  · rw [get?_eraseTree hne, if_neg homePath_not_above.1, hsaved.list]
  · rw [get?_eraseTree hne, if_neg homePath_not_above.2, hsaved.installed]
  · intro n hn
    rw [get?_eraseTree hne, if_neg fun habove => hn (homePath_above_iff.1 habove).symm, hsaved.homes]
  · rw [get?_eraseTree hne, if_pos prefix_rfl]

/-! ## Commands -/

variable {k : Command} {net : Network}

/-- A command that is turned away with a report leaves the files alone. -/
theorem turned_of_quiet (hk : ¬ k.Upgrades c) {a : Action Unit} (ha : Quiet a) :
    Turned c m.world.files net k ((do a; return false : Managing Bool) c m) := by
  rcases hr : a m with ⟨r, m'⟩
  have hfiles := ha m
  rw [hr] at hfiles
  cases r with
  | error e =>
    rw [Managing.bind_of_error (lift_of_eq hr)]
    exact .nothing hk nofun (hfiles ▸ .refl _ _) fun _ => hfiles ▸ rfl
  | ok x =>
    rw [lift_bind hr]
    exact .nothing hk nofun (hfiles ▸ .refl _ _) fun _ => hfiles ▸ rfl

/-- A command that fails at once leaves everything alone. -/
theorem turned_of_error (hk : ¬ k.Upgrades c) {a : Managing Bool} {e : Signal} (h : a c m = ((.error e, c), m)) :
    Turned c m.world.files net k (a c m) := by
  rw [h]
  exact .nothing hk nofun (.refl _ _) fun _ => rfl

theorem not_upgrades_uninstall : ¬ (Command.uninstall text).Upgrades c := by
  rintro ⟨_, _, _, h, -⟩
  cases h

theorem remove_turned (h : Agrees c m.world.files) (hp : PackageName.parse text = .ok p) (hstep : IsStep p.name) :
    Turned c m.world.files net (.uninstall text) ((do remove text p.name; return true : Managing Bool) c m) := by
  by_cases hname : p.name ∈ c.names
  · obtain ⟨m', hrun, hrewritten, hhome⟩ := remove_run text h hstep hname
    rw [Managing.bind_of_ok hrun]
    exact .removed hp hrewritten hhome
  · obtain ⟨e, he⟩ := access_dropPart_missing (m := m) h.regular hname
    have hrun : remove text p.name c m = ((.error e, c), m) := by
      unfold remove
      rw [known_bind, Managing.bind_of_error (lift_of_eq he)]
    exact turned_of_error not_upgrades_uninstall (Managing.bind_of_error hrun _)

theorem packageName_run (text : String) :
    packageName text m = match PackageName.parse text with
      | .ok p => (.ok p, m)
      | .error f => (.error (.failure f), m) := by
  unfold packageName
  cases PackageName.parse text <;> rfl

/-- The machine after a line was printed. -/
def printed (m : Machine) (line : String) : Machine := { m with world := m.world.printLine line }

theorem printLine_run (line : String) : Action.printLine line m = (.ok (), printed m line) := rfl

/-- A check that leaves the machine alone, and what is done after it. -/
theorem turned_of_check (hk : ¬ k.Upgrades c) {a : Action Bool} {f : Bool → Managing Bool} (ha : (a m).2 = m)
    (hf : ∀ b, Turned c m.world.files net k (f b c m)) :
    Turned c m.world.files net k (((liftM a : Managing Bool) >>= f) c m) := by
  rcases hr : a m with ⟨r, m'⟩
  rw [hr] at ha
  subst ha
  cases r with
  | error e => exact turned_of_error hk (Managing.bind_of_error (lift_of_eq hr) _)
  | ok b =>
    rw [lift_bind hr]
    exact hf b

theorem access_state {α : Type} (r : Except AccessFault α) : (Action.access r m).2 = m := by
  cases r <;> rfl

theorem hasOtherVersion_state (v : String) : (hasOtherVersion c p v m).2 = m := by
  unfold hasOtherVersion
  cases c.installed.holds p.name with
  | error f => rfl
  | ok b =>
    cases b with
    | false => rfl
    | true =>
      cases c.installed.part p.name with
      | error f => rfl
      | ok doc => cases doc <;> rfl

theorem uninstall_turned (h : Agrees c m.world.files) (hplain : (Command.uninstall text).Plain) :
    Turned c m.world.files net (.uninstall text) (uninstall text c m) := by
  have hk : ¬ (Command.uninstall text).Upgrades c := not_upgrades_uninstall
  have hname := packageName_run (m := m) text
  unfold Packages.uninstall
  rw [known_bind]
  split
  · exact turned_of_quiet hk (.printLine _)
  cases hparse : PackageName.parse text with
  | error f =>
    rw [hparse] at hname
    exact turned_of_error hk (Managing.bind_of_error (lift_of_eq hname) _)
  | ok p =>
    rw [hparse] at hname
    rw [lift_bind hname, lift_bind (printLine_run _)]
    have hremove : Turned c _ net _ _ :=
      remove_turned (m := printed m s!"Uninstalling package '{text}'") h hparse (hplain p hparse)
    refine turned_of_check hk (m := printed m _) (access_state _) fun listed => ?_
    split
    · exact hremove
    · cases p.version with
      | none => exact turned_of_quiet hk (m := printed m _) (.printLine _)
      | some v =>
        by_cases hv : v = ""
        · subst hv
          exact turned_of_quiet hk (m := printed m _) (.printLine s!"Package '{text}' not installed")
        simp only
        refine turned_of_check hk (m := printed m _) (hasOtherVersion_state v) fun other => ?_
        split
        · exact turned_of_quiet hk (m := printed m _) (.printLine _)
        · exact hremove

/-- What was written where the directory of the package alone had changed. -/
theorem Rewritten.after {c' : Config} {s0 s1 s' : FileStore} (hin : Inside s0.packageDir s0 s1)
    (hothers : ∀ n, n ≠ name → s1.get? (homePath s0 n) = s0.get? (homePath s0 n)) (h : Rewritten c' s1 name s') :
    Rewritten c' s0 name s' := by
  obtain ⟨hlistPath, hinstalledPath, hhomePath⟩ := paths_of_inside hin
  constructor
  · exact h.step
  · exact hin.trans (hin.packageDir ▸ h.inside)
  · exact hlistPath ▸ h.list
  · exact hinstalledPath ▸ h.installed
  · intro n hn
    have hkept := h.others n hn
    rw [hhomePath] at hkept
    rw [hkept, hothers n hn]

/-- What is downloaded is placed, and otherwise the old directory is gone if it was cleared away. -/
theorem fetch_turned {s : FileStore} {c1 : Config} {cleared upgrade : Bool} (h : Agrees c s)
    (hp : PackageName.parse text = .ok p) (hstep : IsStep p.name) (hclear : Cleared c s p.name cleared c1 m.world.files)
    (hupgrade : if cleared then upgrade = true else ¬ (Command.install text server upgrade).Upgrades c) :
    Turned c s (served? m.world) (.install text server upgrade) (fetch (serverAddress server) p c1 m) := by
  have hinside := hclear.inside
  obtain ⟨hlistPath, -, hhomePath⟩ := paths_of_inside hinside
  cases hserved : served? m.world server p with
  | none =>
    obtain ⟨r, m', hdownload, hr, hfiles⟩ := download_of_not_served hserved
    obtain ⟨r', hr', hrun⟩ : ∃ r' : Except Signal Bool, r' ≠ .ok true ∧
        fetch (serverAddress server) p c1 m = ((r', c1), m') := by
      unfold fetch
      rcases hr with rfl | ⟨e, rfl⟩
      · exact ⟨.ok false, nofun, lift_bind hdownload _⟩
      · exact ⟨.error e, nofun, Managing.bind_of_error (lift_of_eq hdownload) _⟩
    rw [hrun, Turned, hfiles, hclear.config]
    cases cleared with
    | true =>
      obtain rfl : upgrade = true := hupgrade
      exact .lost hp (hclear.listed rfl) hserved hr' hinside fun q => by simpa using hclear.get q
    | false => exact .nothing hupgrade hr' hinside fun q => by simpa using hclear.get q
  | some found =>
    obtain ⟨version, body⟩ := found
    obtain ⟨response, m1, hdownload, rfl, hfiles⟩ := download_of_served hserved
    have hinstalled : m.world.files.get? (installedPath s) = s.get? (installedPath s) := by
      rw [hclear.get, if_neg fun habove => homePath_not_above.2 habove.2]
    have hsited := h.sited.inside hinside (hinstalled ▸ h.sited.installed)
    have hfile : m.world.files.get? (listPath m.world.files) ≠ some .dir := by
      obtain ⟨content, hcontent, -⟩ := h.list
      rw [hlistPath, hclear.get, if_neg fun habove => homePath_not_above.1 habove.2, hcontent]
      simp
    have hc1 : c1.Regular := by
      rw [hclear.config]
      cases cleared with
      | true => exact h.regular.strike p.name
      | false => exact h.regular
    have hothers (n : String) (hn : n ≠ p.name) : m.world.files.get? (homePath s n) = s.get? (homePath s n) := by
      rw [hclear.get, if_neg fun habove => hn (homePath_above_iff.1 habove.2).symm]
    rw [← hfiles] at hsited hfile
    obtain ⟨r, m', hplace, hrewritten, hdir⟩ := place_run version response.body hsited hfile hc1 hstep
    rw [hfiles] at hrewritten hdir
    have hhome : (p.name ∈ c.names ∧ cleared = false) ∨ (r = .ok () ∧ MakesDir response.body) →
        m'.world.files.get? (homePath s p.name) = some .dir := by
      rw [← hhomePath]
      rintro (⟨hlisted, hno⟩ | hmakes)
      · exact hdir (.inl (hhomePath _ ▸ hclear.home h hstep hlisted hno))
      · exact hdir (.inr hmakes)
    unfold fetch
    rw [lift_bind hdownload]
    dsimp only
    have hconfig : c1.enter p.name version = (if cleared then c.strike p.name else c).enter p.name version := by
      rw [hclear.config]
    cases r with
    | error e =>
      rw [Managing.bind_of_error hplace]
      exact .placed hp hserved hconfig (hrewritten.after hinside hothers) fun hor => hhome (hor.imp_right fun hok => nomatch hok.1)
    | ok x =>
      rw [Managing.bind_of_ok hplace]
      exact .placed hp hserved hconfig (hrewritten.after hinside hothers) fun hor => hhome (hor.imp_right fun hok => ⟨rfl, hok.2⟩)

theorem install_turned {upgrade : Bool} (h : Agrees c m.world.files) (hplain : (Command.install text server upgrade).Plain) :
    Turned c m.world.files (served? m.world) (.install text server upgrade) (install text server upgrade c m) := by
  unfold Packages.install
  rw [lift_bind (printLine_run _)]
  have hname := packageName_run (m := printed m s!"Installing package '{text}'") text
  cases hparse : PackageName.parse text with
  | error f =>
    rw [hparse] at hname
    have hk : ¬ (Command.install text server upgrade).Upgrades c := by
      rintro ⟨_, _, _, h, hp, -⟩
      cases h
      rw [hparse] at hp
      cases hp
    exact turned_of_error (m := printed m _) hk (Managing.bind_of_error (lift_of_eq hname) _)
  | ok p =>
    have hstep := hplain p hparse
    rw [hparse] at hname
    rw [lift_bind hname, known_bind, lift_bind (isInstalled_run h.regular)]
    have hk (hno : ¬ (text ∈ c.names ∧ p.name ∈ c.names ∧ upgrade = true)) :
        ¬ (Command.install text server upgrade).Upgrades c := by
      rintro ⟨_, _, _, h, hp, htext, hlisted⟩
      cases h
      rw [hparse] at hp
      cases hp
      exact hno ⟨htext, hlisted, rfl⟩
    by_cases htext : text ∈ c.names
    · cases upgrade with
      | false =>
        simp only [htext, decide_true, Bool.not_false, Bool.and_self, if_true]
        exact turned_of_quiet (m := printed m _) (hk nofun) (.reportInstalled c text p)
      | true =>
        simp only [htext, decide_true, Bool.not_true, Bool.and_false, Bool.false_eq_true, if_true, if_false]
        by_cases hlisted : p.name ∈ c.names
        · obtain ⟨s1, hrun, hclear⟩ := clearForUpgrade_listed (m := printed m s!"Installing package '{text}'") h hstep hlisted
          rw [Managing.bind_of_ok hrun]
          exact fetch_turned (m := withFiles (printed m _) s1) h hparse hstep hclear rfl
        · obtain ⟨s1, hrun, hclear⟩ :=
            clearForUpgrade_unlisted (m := printed m s!"Installing package '{text}'") h hstep htext hlisted
          rw [Managing.bind_of_ok hrun]
          exact fetch_turned (m := withFiles (printed m _) s1) h hparse hstep hclear (hk fun hno => hlisted hno.2.1)
    · simp only [htext, decide_false, Bool.false_and, Bool.false_eq_true, if_false]
      have hclear : Cleared c m.world.files p.name false c m.world.files := ⟨nofun, rfl, .refl _ _, by simp⟩
      exact fetch_turned (m := printed m _) h hparse hstep hclear (hk fun hno => htext hno.1)

theorem Command.run_turns (k : Command) (h : Agrees c m.world.files) (hplain : k.Plain) :
    Turned c m.world.files (served? m.world) k (k.run c m) := by
  cases k with
  | install text server upgrade => exact install_turned h hplain
  | uninstall text => exact uninstall_turned h hplain

end

end SmallScript.Packages
