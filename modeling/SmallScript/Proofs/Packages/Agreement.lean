import SmallScript.Packages.Manager
import SmallScript.Proofs.Json.Roundtrip
import SmallScript.Proofs.Packages.Unpacking

/-!
# The list of packages and their directories

The list says which packages are installed, and each of them has a directory of its own. `Agrees c s` says that the two
agree, and that the list is what a command knows. A list that is saved is the one that is read when the next command
starts: `save_run`, `load_run`, `ofContent_written`.
-/

namespace SmallScript.Packages

open Machine Library List
open Data (Table)
open Text (decode unifyLineEnds)
open World (FileStore Entry IsStep)
open World.FileStore Config
open Json (Written Canonical)

/-! ## Places -/

def listPath (s : FileStore) : World.Path := s.packageDir ++ [packageListName]

def installedPath (s : FileStore) : World.Path := s.packageDir ++ [installedName]

/-- The path of the directory of a package. -/
def homePath (s : FileStore) (name : String) : World.Path := installedPath s ++ [name]

/-- The directory of packages is there, and no file is in the place of the installed packages. -/
structure Sited (s : FileStore) : Prop where
  under : s.Under s.packageDir
  housed : s.Housed s.packageDir
  dir : s.get? s.packageDir = some .dir
  installed : s.get? (installedPath s) = some .dir ∨ s.get? (installedPath s) = none

section

variable {s s' : FileStore} {n name : String} {m : Machine} {q : World.Path}

theorem listPath_ne : listPath s ≠ installedPath s := by
  have hname : packageListName ≠ installedName := by decide
  simp [listPath, installedPath, hname]

theorem homePath_ne : installedPath s ≠ homePath s n ∧ listPath s ≠ homePath s n := by
  simp [homePath, installedPath, listPath]

theorem packageDir_above : s.packageDir <+: listPath s ∧ s.packageDir <+: installedPath s ∧ s.packageDir <+: homePath s n :=
  ⟨prefix_append _ _, prefix_append _ _, (prefix_append _ _).trans (prefix_append _ _)⟩

/-- Directories of packages are not in one another, and the list is in none of them. -/
theorem homePath_above_iff : homePath s n <+: homePath s name ↔ n = name := by
  simp [homePath, prefix_append_right_inj]

theorem homePath_not_above : ¬ homePath s n <+: listPath s ∧ ¬ homePath s n <+: installedPath s := by
  refine ⟨fun h => ?_, fun h => ?_⟩
  all_goals
    have hlength := h.length_le
    simp [homePath, installedPath, listPath] at hlength

theorem Sited.step (h : Sited s) (hn : IsStep n) : s.Under (s.packageDir ++ [n]) ∧ s.Housed (s.packageDir ++ [n]) :=
  ⟨h.under.append (List.forall_mem_singleton.2 hn), housed_append_singleton.2 ⟨h.housed, h.dir⟩⟩

/-- The text of what is in the directory of packages. -/
theorem Sited.packagePath_eq (h : Sited s) (hn : IsStep n) : packagePath s n = "/".intercalate (s.packageDir ++ [n]) := by
  have htext : s.pathText s.packageDir = "/".intercalate s.packageDir := by
    obtain ⟨x, xs, hx⟩ := exists_cons_of_ne_nil h.under.ne_nil
    have hbase := h.under.1
    rw [hx] at hbase ⊢
    cases hbase
    simp [pathText]
  have hjoin := joinPath_intercalate (q := [n]) h.under.2 (List.forall_mem_singleton.2 hn) h.under.ne_nil (by simp)
  rw [String.intercalate_singleton] at hjoin
  rw [packagePath, htext, hjoin]

theorem Sited.list (h : Sited s) : s.Under (listPath s) ∧ s.Housed (listPath s) := h.step (by decide)

theorem Sited.packages (h : Sited s) : s.Under (installedPath s) ∧ s.Housed (installedPath s) := h.step (by decide)

theorem Sited.listText (h : Sited s) : packageListPath s = "/".intercalate (listPath s) := h.packagePath_eq (by decide)

theorem Sited.installedText (h : Sited s) : installedDir s = "/".intercalate (installedPath s) :=
  h.packagePath_eq (by decide)

theorem Sited.homeText (h : Sited s) (hn : IsStep n) : joinPath (installedDir s) n = "/".intercalate (homePath s n) := by
  have hjoin := joinPath_intercalate (q := [n]) h.packages.1.2 (List.forall_mem_singleton.2 hn) (by simp [installedPath])
    (by simp)
  rw [String.intercalate_singleton] at hjoin
  rw [h.installedText, hjoin]
  rfl

theorem Sited.homeUnder (h : Sited s) (hn : IsStep n) : s.Under (homePath s n) :=
  h.packages.1.append (List.forall_mem_singleton.2 hn)

theorem Sited.homeHoused (h : Sited s) (hdir : s.get? (installedPath s) = some .dir) : s.Housed (homePath s n) :=
  housed_append_singleton.2 ⟨h.packages.2, hdir⟩

/-- Changes in the directory of packages leave the places where they are. -/
theorem paths_of_inside (hs : Inside s.packageDir s s') :
    listPath s' = listPath s ∧ installedPath s' = installedPath s ∧ ∀ n, homePath s' n = homePath s n := by
  simp only [listPath, homePath, installedPath, hs.packageDir, implies_true, and_self]

theorem Sited.inside (h : Sited s) (hs : Inside s.packageDir s s')
    (hinstalled : s'.get? (installedPath s) = some .dir ∨ s'.get? (installedPath s) = none) : Sited s' where
  under := by
    rw [hs.packageDir]
    exact hs.under h.under
  housed := by
    rw [hs.packageDir]
    exact hs.housed h.housed
  dir := by
    rw [hs.packageDir]
    exact hs.kept h.dir
  installed := by rwa [installedPath, hs.packageDir]

/-! ## The directory of installed packages -/

theorem makeInstalledDir_run (h : Sited m.world.files) :
    ∃ s', makeInstalledDir m = (.ok (), withFiles m s') ∧ Inside m.world.files.packageDir m.world.files s' ∧
      ∀ q, s'.get? q = if q = installedPath m.world.files then some .dir else m.world.files.get? q := by
  set s := m.world.files
  obtain ⟨hunder, hhoused⟩ := h.packages
  rw [makeInstalledDir, Action.bind_of_ok store_run, h.installedText]
  rcases h.installed with hdir | hnone
  · have hexists : s.exists? ("/".intercalate (installedPath s)) = true :=
      (exists?_iff hunder).2 ⟨hhoused, by rw [hdir]; rfl⟩
    rw [if_pos hexists]
    refine ⟨s, rfl, .refl _ _, fun q => ?_⟩
    split
    · next hq => rw [hq, hdir]
    · rfl
  · have hmissing : ¬ s.exists? ("/".intercalate (installedPath s)) = true := by
      intro hexists
      have hsome := ((exists?_iff hunder).1 hexists).2
      rw [hnone] at hsome
      cases hsome
    have hmake : s.makeDir (installedDir s) = .ok (s.set (installedPath s) .dir) := by
      rw [h.installedText]
      exact (makeDir_iff hunder).2 ⟨hhoused, hnone, rfl⟩
    rw [if_neg hmissing, changeFiles_ok hmake]
    exact ⟨_, rfl, .set (packageDir_above (n := "")).2.1 hunder.ne_nil fun _ => rfl, get?_set hunder.ne_nil⟩

/-! ## The list -/

/-- What is known of the packages in the list. -/
def Config.packages (c : Config) : List (String × Json) :=
  match c.installed with
  | .obj packages => packages
  | _ => []

def Config.names (c : Config) : List String := c.packages.map (·.1)

/-- The list is a document that is read back as it is written, with the packages in an object. -/
structure Config.Regular (c : Config) : Prop where
  canonical : Canonical (.obj c.fields)
  installed : c.fields.lookup installedKey = some (.obj c.packages)

/-- The list with these packages. -/
def Config.withPackages (c : Config) (packages : List (String × Json)) : Config := c.withInstalled (.obj packages)

variable {c : Config} {packages : List (String × Json)} {text : String}

theorem Config.Regular.installed_eq (h : c.Regular) : c.installed = .obj c.packages := by
  rw [Config.installed, h.installed, Option.getD_some]

@[simp]
theorem Config.packages_withPackages : (c.withPackages packages).packages = packages := by
  have hlookup : (c.withPackages packages).fields.lookup installedKey = some (.obj packages) := by
    rw [withPackages, withInstalled, Json.setField, Table.lookup_insertEntry, if_pos rfl]
  rw [Config.packages, Config.installed, hlookup]
  rfl

theorem Config.Regular.nodup (h : c.Regular) : c.names.Nodup ∧ ∀ e ∈ c.packages, Canonical e.2 := by
  obtain ⟨before, after, hfields, -⟩ := List.lookup_eq_some_iff.1 h.installed
  have hcanonical := h.canonical
  cases hcanonical with
  | obj hnames hall =>
    have hpackages := hall (installedKey, .obj c.packages) (by simp [hfields])
    cases hpackages with
    | obj hnames hall => exact ⟨hnames, hall⟩

theorem Config.Regular.withPackages (h : c.Regular) (hnames : (packages.map (·.1)).Nodup)
    (hall : ∀ e ∈ packages, Canonical e.2) : (c.withPackages packages).Regular where
  canonical := by
    have hcanonical := h.canonical
    cases hcanonical with
    | obj hfields hvalues =>
      refine .obj (Table.nodup_insertEntry hfields) fun e he => ?_
      rcases Table.mem_insertEntry he with rfl | he
      · exact .obj hnames hall
      · exact hvalues e he
  installed := by
    rw [packages_withPackages, Config.withPackages, Config.withInstalled, Json.setField, Table.lookup_insertEntry,
      if_pos rfl]

/-- The list with a package in some version. -/
def Config.enter (c : Config) (name version : String) : Config :=
  c.withPackages (Json.setField c.packages name (.str version))

/-- The list without a package. -/
def Config.strike (c : Config) (name : String) : Config := c.withPackages (c.packages.filter (·.1 != name))

theorem Config.mem_names_enter {version : String} : n ∈ (c.enter name version).names ↔ n = name ∨ n ∈ c.names := by
  rw [Config.names, Config.enter, packages_withPackages]
  exact Table.mem_names_insertEntry

theorem Config.mem_names_strike : n ∈ (c.strike name).names ↔ n ≠ name ∧ n ∈ c.names := by
  simp only [Config.names, Config.strike, packages_withPackages, mem_map, mem_filter, bne_iff_ne]
  constructor
  · rintro ⟨e, ⟨he, hne⟩, rfl⟩
    exact ⟨hne, e, he, rfl⟩
  · rintro ⟨hne, e, he, rfl⟩
    exact ⟨e, ⟨he, hne⟩, rfl⟩

theorem Config.Regular.enter (h : c.Regular) (name version : String) : (c.enter name version).Regular := by
  refine h.withPackages (Table.nodup_insertEntry h.nodup.1) fun e he => ?_
  rcases Table.mem_insertEntry he with rfl | he
  · exact .str version
  · exact h.nodup.2 e he

theorem Config.Regular.strike (h : c.Regular) (name : String) : (c.strike name).Regular :=
  h.withPackages (h.nodup.1.sublist (List.filter_sublist.map _)) fun e he => h.nodup.2 e (mem_of_mem_filter he)

/-- The list that the content of its file stands for. -/
def Config.ofContent (content : ByteArray) : Except Signal Config :=
  match decode content with
  | .error f => .error (.failure (.decode f))
  | .ok text =>
    match (Json.parse (String.ofList (unifyLineEnds text.toList))).getD (.obj []) with
    | .obj fields =>
      let c : Config := ⟨fields⟩
      .ok (if c.installed.isEmpty then c.withInstalled (.obj []) else c)
    | d => .error (.failure (.attribute d.kind "get"))

theorem load_run (h : Sited m.world.files) {content : ByteArray}
    (hfile : m.world.files.get? (listPath m.world.files) = some (.file content)) :
    Config.load m = (ofContent content, m) := by
  obtain ⟨hunder, hhoused⟩ := h.list
  have hexists : m.world.files.exists? ("/".intercalate (listPath m.world.files)) = true :=
    (exists?_iff hunder).2 ⟨hhoused, by rw [hfile]; rfl⟩
  have hread : onFiles (m.world.files.read ("/".intercalate (listPath m.world.files))) m = (.ok content, m) := by
    rw [read_of_file hunder hhoused hfile]
    rfl
  have hlist : readList m = (do return (Json.parse (← textOf content)).getD (.obj []) : Action Json) m := by
    rw [readList, Action.bind_of_ok store_run, h.listText, hexists]
    simp only [Bool.not_true, Bool.false_eq_true, if_false]
    rw [Action.bind_of_ok store_run, h.listText, Action.bind_of_ok hread]
  cases hdecode : decode content with
  | error f =>
    have htext : textOf content m = (.error (.failure (.decode f)), m) := by
      rw [textOf, hdecode]
      rfl
    rw [Action.bind_of_error htext] at hlist
    rw [Config.load, Action.bind_of_error hlist, ofContent, hdecode]
  | ok text =>
    have htext : textOf content m = (.ok (String.ofList (unifyLineEnds text.toList)), m) := by
      rw [textOf, hdecode]
      rfl
    rw [Action.bind_of_ok htext] at hlist
    rw [Config.load, Action.bind_of_ok hlist, ofContent, hdecode]
    dsimp only
    cases (Json.parse (String.ofList (unifyLineEnds text.toList))).getD (.obj []) <;> rfl

theorem save_run (h : Sited m.world.files) (hfile : m.world.files.get? (listPath m.world.files) ≠ some .dir)
    (hw : Written (.obj c.fields) text) :
    c.save m = (.ok (), withFiles m (m.world.files.set (listPath m.world.files) (.file text.toUTF8))) := by
  obtain ⟨hunder, hhoused⟩ := h.list
  have hrender : Action.ofNumber (Json.obj c.fields).render m = (.ok text, m) := by
    rw [hw.render]
    rfl
  have hwrite : m.world.files.write (packageListPath m.world.files) text.toUTF8 =
      .ok (m.world.files.set (listPath m.world.files) (.file text.toUTF8)) := by
    rw [h.listText]
    exact (write_iff hunder).2 ⟨hhoused, hfile, rfl⟩
  rw [save, writeList, Action.bind_of_ok hrender, changeFiles_ok hwrite]

theorem ofContent_written (hc : c.Regular) (hw : Written (.obj c.fields) text) : ofContent text.toUTF8 = .ok c := by
  unfold ofContent
  rw [Json.decode_toUTF8]
  simp only [Json.unifyLineEnds_eq hw.plain, String.ofList_toList, Json.parse_of_written hw, Option.getD_some]
  split
  · next hempty =>
    -- an object without packages is replaced by itself
    have hnone : c.packages = [] := by
      rw [hc.installed_eq] at hempty
      exact List.isEmpty_iff.1 hempty
    have hlookup := hc.installed
    rw [hnone] at hlookup
    rw [Config.withInstalled, Json.setField, Table.insertEntry_of_lookup hlookup]
  · rfl

/-! ## Agreement -/

/-- The list in the store is the one that is known, and the directory of installed packages has a directory for every
package in the list, and no other. -/
structure Agrees (c : Config) (s : FileStore) : Prop where
  sited : Sited s
  regular : c.Regular
  list : ∃ content, s.get? (listPath s) = some (.file content) ∧ ofContent content = .ok c
  steps : ∀ n ∈ c.names, IsStep n
  installed : ∀ n ∈ c.names, s.get? (installedPath s) = some .dir
  homes : ∀ n, IsStep n → s.get? (homePath s n) = if n ∈ c.names then some .dir else none

/-- The list in the store and the directories of packages agree. -/
def InOrder (s : FileStore) : Prop := ∃ c, Agrees c s

theorem Agrees.load (h : Agrees c m.world.files) : Config.load m = (.ok c, m) := by
  obtain ⟨content, hfile, hcontent⟩ := h.list
  rw [load_run h.sited hfile, hcontent]

end

end SmallScript.Packages
