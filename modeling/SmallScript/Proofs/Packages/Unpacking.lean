import SmallScript.Packages.Archive
import SmallScript.Proofs.Machine.Changes
import SmallScript.Proofs.World.Paths

/-!
# Unpacking stays inside its directory

The parts of an entry's name that lead elsewhere are left out, so an entry is written at a path below the directory that
an archive is unpacked into: `entryPath_eq`. Hence nothing else in the store changes, whether an archive is unpacked as a
whole or in part: `unpack_inside`. There is a directory in the end if there was one, or if the first entry makes one:
`unpack_dir`.
-/

namespace SmallScript.Packages

open Machine Library List String
open World World.FileStore

/-! ## Paths of entries -/

theorem joinPath_intercalate {p q : World.Path} (hp : ∀ n ∈ p, IsStep n) (hq : ∀ n ∈ q, IsStep n) (hpne : p ≠ []) (hqne : q ≠ []) :
    joinPath ("/".intercalate p) ("/".intercalate q) = "/".intercalate (p ++ q) := by
  rw [joinPath, startsWith_intercalate hq, endsWith_intercalate hp, intercalate_append_of_ne_nil hpne hqne]
  rfl

theorem slash_not_mem_splitOn (cs : List Char) : ∀ l ∈ cs.splitOn '/', '/' ∉ l := by
  induction hn : cs.length using Nat.strongRecOn generalizing cs with
  | ind n ih =>
    by_cases hmem : '/' ∈ cs
    · obtain ⟨front, back, rfl, hfront⟩ := eq_append_cons_of_mem hmem
      rw [splitOn_append_cons_self_of_not_mem hfront]
      refine List.forall_mem_cons.2 ⟨hfront, ih back.length ?_ back rfl⟩
      rw [← hn, List.length_append, length_cons]
      omega
    · rw [splitOn_eq_singleton hmem]
      exact List.forall_mem_singleton.2 hmem

theorem entryParts_steps (name : String) : ∀ n ∈ entryParts name, IsStep n := by
  intro n hn
  simp only [entryParts, slashParts, mem_filter, Bool.and_eq_true, bne_iff_ne] at hn
  obtain ⟨hpart, ⟨hempty, hdot⟩, hdots⟩ := hn
  obtain ⟨l, hl, rfl⟩ := List.mem_map.1 hpart
  refine ⟨hempty, hdot, hdots, ?_⟩
  rw [toList_ofList]
  exact slash_not_mem_splitOn _ l hl

theorem entryPath_eq {d : World.Path} (hd : ∀ n ∈ d, IsStep n) (hne : d ≠ []) (name : String) :
    entryPath ("/".intercalate d) name = "/".intercalate (d ++ entryParts name) := by
  have hparts := entryParts_steps name
  have hall : ∀ n ∈ d ++ entryParts name, IsStep n := fun n hn => (List.mem_append.1 hn).elim (hd n) (hparts n)
  unfold entryPath
  by_cases hempty : entryParts name = []
  · have hjoin : joinPath ("/".intercalate d) "" = "/".intercalate d ++ "/" := by
      have hnone : "".startsWith "/" = false := startsWith_intercalate (forall_mem_nil IsStep)
      simp [joinPath, endsWith_intercalate hd, hnone]
    rw [hempty, append_nil, String.intercalate_nil, hjoin]
    refine shortPath_of_parts hd (pathParts_append_slash hd) hne ?_
    have hstart := startsWith_intercalate hd
    obtain ⟨c, cs, htext⟩ : ∃ c cs, ("/".intercalate d).toList = c :: cs :=
      exists_cons_of_ne_nil fun h => intercalate_ne_empty hd hne (String.toList_eq_nil_iff.1 h)
    rw [startsWith_string_eq_false_iff, htext] at hstart
    rw [startsWith_string_eq_false_iff, toList_append, htext]
    simpa using hstart
  · rw [joinPath_intercalate hd hparts hne hempty]
    exact shortPath_of_parts hall (pathParts_intercalate hall) (by simp [hne]) (startsWith_intercalate hall)

/-! ## One entry after the other -/

/-- The entry makes a directory of the place that it is unpacked into: it goes below, or it is a directory. -/
def Proper (name : String) : Prop := entryParts name ≠ [] ∨ name.endsWith "/" = true

section

variable {d : World.Path} {s s' : FileStore} {m : Machine}

/-- Two steps unpack an entry: its parent is made if it is missing, then the entry itself. -/
theorem unpackEntry_steps (hd : s.Under d) {entry : String × ByteArray}
    (h : unpackEntry ("/".intercalate d) s entry = .ok s') :
    ∃ s1, (s1 = s ∨ (d ++ entryParts entry.1).dropLast ≠ [] ∧
        s.exists? ("/".intercalate (d ++ entryParts entry.1).dropLast) = false ∧
        s.makePath ("/".intercalate (d ++ entryParts entry.1).dropLast) = .ok s1) ∧
      (if entry.1.endsWith "/" then
        if s1.isDir ("/".intercalate (d ++ entryParts entry.1)) then pure s1
        else s1.makeDir ("/".intercalate (d ++ entryParts entry.1))
      else s1.write ("/".intercalate (d ++ entryParts entry.1)) entry.2) = Except.ok s' := by
  have hpath : s.Under (d ++ entryParts entry.1) := hd.append (entryParts_steps entry.1)
  simp only [unpackEntry, entryPath_eq hd.2 hd.ne_nil, parentPath_intercalate hpath.2 hpath.ne_nil, pure_bind] at h
  split at h
  · exact ⟨s, .inl rfl, h⟩
  · next hmissing =>
    rw [Bool.not_eq_true, Bool.or_eq_false_iff] at hmissing
    obtain ⟨s1, hmake, h⟩ := exists_of_bind_ok h
    refine ⟨s1, .inr ⟨fun hnil => ?_, hmissing.2, hmake⟩, h⟩
    rw [hnil] at hmissing
    cases hmissing.1

/-- The directories that are made for an entry are below the directory. -/
theorem parent_inside (hd : s.Under d) (hhoused : s.Housed d) {parts : List String} (hparts : ∀ n ∈ parts, IsStep n)
    (hne : (d ++ parts).dropLast ≠ []) (hmissing : s.exists? ("/".intercalate (d ++ parts).dropLast) = false)
    (hmake : s.makePath ("/".intercalate (d ++ parts).dropLast) = .ok s') : Inside d s s' := by
  refine makePath_inside ((hd.append hparts).dropLast hne) ?_ hhoused hmake
  by_cases hempty : parts = []
  · rw [hempty, append_nil] at hne hmissing
    rw [(exists?_iff (hd.dropLast hne)).2 ⟨hhoused.dropLast, ?_⟩] at hmissing
    · cases hmissing
    rw [hhoused.get? ( dropLast_prefix d) fun heq => ?_, Option.isSome_some]
    have hlength := congrArg List.length heq
    have hpos := List.length_pos_iff.2 hd.ne_nil
    rw [length_dropLast] at hlength
    omega
  · rw [dropLast_append_of_ne_nil hempty]
    exact prefix_append _ _

theorem unpackEntry_inside (hd : s.Under d) (hhoused : s.Housed d) {entry : String × ByteArray}
    (h : unpackEntry ("/".intercalate d) s entry = .ok s') :
    Inside d s s' ∧ (Proper entry.1 → s'.get? d = some .dir) := by
  have hpath : s.Under (d ++ entryParts entry.1) := hd.append (entryParts_steps entry.1)
  obtain ⟨s1, hfirst, h⟩ := unpackEntry_steps hd h
  have hparent : Inside d s s1 := by
    rcases hfirst with rfl | ⟨hne, hmissing, hmake⟩
    · exact .refl d s1
    · exact parent_inside hd hhoused (entryParts_steps entry.1) hne hmissing hmake
  have hpath1 := hparent.under hpath
  have hbelow : d <+: d ++ entryParts entry.1 := prefix_append _ _
  -- the directory is there if the entry goes below it
  have hdir : entryParts entry.1 ≠ [] → s1.Housed (d ++ entryParts entry.1) → s1.get? d = some .dir :=
    fun hne hh => hh.get? hbelow fun heq => hne (List.append_right_eq_self.1 heq.symm)
  split at h
  · next hslash =>
    split at h
    · next hisDir =>
      cases h
      obtain ⟨hh, hget⟩ := (isDir_iff hpath1).1 hisDir
      refine ⟨hparent, fun _ => ?_⟩
      by_cases hne : entryParts entry.1 = []
      · rwa [hne, append_nil] at hget
      · exact hdir hne hh
    · obtain ⟨hh, hnone, rfl⟩ := (makeDir_iff hpath1).1 h
      have hset : Inside d s1 (s1.set (d ++ entryParts entry.1) .dir) := .set hbelow hpath.ne_nil fun _ => rfl
      refine ⟨hparent.trans hset, fun _ => ?_⟩
      by_cases hne : entryParts entry.1 = []
      · rw [get?_set hpath.ne_nil, if_pos (by rw [hne, append_nil])]
      · exact hset.kept (hdir hne hh)
  · next hslash =>
    obtain ⟨hh, hno, rfl⟩ := (write_iff hpath1).1 h
    have hset : Inside d s1 (s1.set (d ++ entryParts entry.1) (.file entry.2)) :=
      .set hbelow hpath.ne_nil fun hdir => absurd hdir hno
    refine ⟨hparent.trans hset, fun hproper => hset.kept (hdir (hproper.resolve_right hslash) hh)⟩

/-! ## Archives -/

/-- The machine with another file store. -/
def withFiles (m : Machine) (s : FileStore) : Machine := { m with world := { m.world with files := s } }

@[simp]
theorem files_withFiles : (withFiles m s).world.files = s := rfl

theorem store_run : store m = (.ok m.world.files, m) := rfl

theorem changeFiles_ok {f : FileStore → Except FileFault FileStore} (h : f m.world.files = .ok s) :
    changeFiles f m = (.ok (), withFiles m s) := by
  rw [changeFiles, Action.bind_of_ok store_run, h]
  rfl

theorem changeFiles_error {f : FileStore → Except FileFault FileStore} {fault : FileFault}
    (h : f m.world.files = .error fault) : changeFiles f m = (.error (.failure (.file fault)), m) := by
  rw [changeFiles, Action.bind_of_ok store_run, h]
  rfl

theorem unpackEntries_inside (archive : Archive) (hd : m.world.files.Under d) (hhoused : m.world.files.Housed d) :
    Inside d m.world.files (unpackEntries ("/".intercalate d) archive m).2.world.files := by
  induction archive generalizing m with
  | nil => exact .refl _ _
  | cons entry rest ih =>
    rw [unpackEntries]
    cases hentry : unpackEntry ("/".intercalate d) m.world.files entry with
    | error fault =>
      have herror : changeFiles (unpackEntry ("/".intercalate d) · entry) m = _ := changeFiles_error hentry
      rw [Action.bind_of_error herror]
      exact .refl _ _
    | ok s1 =>
      have hok : changeFiles (unpackEntry ("/".intercalate d) · entry) m = _ := changeFiles_ok hentry
      rw [Action.bind_of_ok hok]
      have hinside := (unpackEntry_inside hd hhoused hentry).1
      exact hinside.trans (ih (m := withFiles m s1) (hinside.under hd) (hinside.housed hhoused))

/-- The archive in a body, if it is one within the limits. -/
def checkedArchive (body : Body) : Except Failure Archive := do
  let archive ← archiveOf body
  archive.check
  return archive

/-- What is in the body makes a directory of the place that it is unpacked into: its first entry does. -/
def MakesDir (body : Body) : Prop := ∃ entry rest, checkedArchive body = .ok (entry :: rest) ∧ Proper entry.1

theorem unpack_eq (dir : String) (body : Body) :
    unpack dir body = match checkedArchive body with
      | .ok archive => unpackEntries dir archive
      | .error f => Action.fail f := by
  unfold unpack checkedArchive
  cases archiveOf body with
  | error f => rfl
  | ok archive =>
    simp only [bind, Except.bind]
    cases archive.check <;> rfl

theorem unpack_inside (body : Body) (hd : m.world.files.Under d) (hhoused : m.world.files.Housed d) :
    Inside d m.world.files (unpack ("/".intercalate d) body m).2.world.files := by
  rw [unpack_eq]
  split
  · exact unpackEntries_inside _ hd hhoused
  · exact .refl _ _

/-- If all is unpacked and the first entry makes a directory, there is one in the end. -/
theorem unpack_dir {body : Body} (hmakes : MakesDir body) (hd : m.world.files.Under d) (hhoused : m.world.files.Housed d)
    (hok : (unpack ("/".intercalate d) body m).1 = .ok ()) :
    (unpack ("/".intercalate d) body m).2.world.files.get? d = some .dir := by
  obtain ⟨entry, rest, harchive, hproper⟩ := hmakes
  rw [unpack_eq, harchive] at hok ⊢
  simp only [unpackEntries] at hok ⊢
  cases hentry : unpackEntry ("/".intercalate d) m.world.files entry with
  | error fault =>
    have herror : changeFiles (unpackEntry ("/".intercalate d) · entry) m = _ := changeFiles_error hentry
    rw [Action.bind_of_error herror] at hok
    cases hok
  | ok s1 =>
    have hfirst : changeFiles (unpackEntry ("/".intercalate d) · entry) m = _ := changeFiles_ok hentry
    rw [Action.bind_of_ok hfirst]
    obtain ⟨hinside, hdir⟩ := unpackEntry_inside hd hhoused hentry
    exact (unpackEntries_inside rest (m := withFiles m s1) (hinside.under hd) (hinside.housed hhoused)).kept (hdir hproper)

end

end SmallScript.Packages
