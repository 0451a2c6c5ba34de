import Mathlib
import SmallScript.Proofs.Packages.Commands

/-!
# Commands that fail

A command that does not report success leaves the list, what is known of it and the directories as they were, unless it
is half done: an upgrade has cleared the old directory away and gets no archive, or a package is in the list already when
its archive turns out to be bad.

List and directories agree after a command unless the package that it names is left in the list without a directory
(`Spoilt`). Over a sequence of commands they agree all the time just if no command leaves its package so.
-/

namespace SmallScript.Packages

open Machine Library List
open World (FileStore Entry IsStep Response Body)
open World.FileStore
open Json (Written Canonical)

/-- The list in the store has the package, and there is no directory for it. -/
def Spoilt (name : String) (s : FileStore) : Prop :=
  ∃ content c, s.get? (listPath s) = some (.file content) ∧ Config.ofContent content = .ok c ∧ name ∈ c.names ∧
    s.get? (homePath s name) ≠ some .dir

/-- The package that a command names is not spoilt. -/
def Command.Spares (k : Command) (s : FileStore) : Prop := ∀ p, PackageName.parse k.text = .ok p → ¬ Spoilt p.name s

section

variable {c c' : Config} {s s' : FileStore} {m : Machine} {name : String} {net : Network} {k : Command}
  {r : Except Signal Bool}

theorem InOrder.not_spoilt (h : InOrder s) : ¬ Spoilt name s := by
  rintro ⟨content, c, hfile, hcontent, hname, hno⟩
  obtain ⟨c', h'⟩ := h
  obtain ⟨content', hfile', hcontent'⟩ := h'.list
  rw [hfile] at hfile'
  cases hfile'
  rw [hcontent] at hcontent'
  cases hcontent'
  have hhome := h'.homes name (h'.steps name hname)
  rw [if_pos hname] at hhome
  exact hno hhome

/-- Agreement is about what is at each path. -/
theorem Agrees.congr (h : Agrees c s) (hin : Inside s.packageDir s s') (hsame : ∀ q, s'.get? q = s.get? q) :
    Agrees c s' := by
  obtain ⟨hlistPath, hinstalledPath, hhomePath⟩ := paths_of_inside hin
  constructor
  · exact h.sited.inside hin (hsame _ ▸ h.sited.installed)
  · exact h.regular
  · rw [hlistPath, hsame]
    exact h.list
  · exact h.steps
  · rw [hinstalledPath, hsame]
    exact h.installed
  · intro n hn
    rw [hhomePath, hsame]
    exact h.homes n hn

/-- After the list was written, it is up to the directory of one package. -/
theorem Rewritten.agrees (h : Agrees c s) (hs : Rewritten c' s name s') (hc' : c'.Regular)
    (hnames : ∀ n, n ≠ name → (n ∈ c'.names ↔ n ∈ c.names))
    (hhome : s'.get? (homePath s name) = if name ∈ c'.names then some .dir else none) : Agrees c' s' := by
  obtain ⟨hlistPath, hinstalledPath, hhomePath⟩ := paths_of_inside hs.inside
  obtain ⟨text, hw, hlist⟩ := hs.list
  constructor
  · exact h.sited.inside hs.inside (.inl hs.installed)
  · exact hc'
  · exact ⟨_, hlistPath ▸ hlist, ofContent_written hc' hw⟩
  · intro n hn
    by_cases hne : n = name
    · exact hne ▸ hs.step
    · exact h.steps n ((hnames n hne).1 hn)
  · exact fun _ _ => hinstalledPath ▸ hs.installed
  · intro n hn
    rw [hhomePath]
    by_cases hne : n = name
    · rw [hne, hhome]
    · rw [hs.others n hne, h.homes n hn]
      simp only [hnames n hne]

/-- A package is spoilt when its directory is gone and the list is as it was. -/
theorem spoilt_of_gone (h : Agrees c s) (hname : name ∈ c.names) (hin : Inside s.packageDir s s')
    (hgone : ∀ q, s'.get? q = if homePath s name <+: q then none else s.get? q) : Spoilt name s' := by
  obtain ⟨hlistPath, -, hhomePath⟩ := paths_of_inside hin
  obtain ⟨content, hfile, hcontent⟩ := h.list
  refine ⟨content, c, ?_, hcontent, hname, ?_⟩
  · rw [hlistPath, hgone, if_neg homePath_not_above.1, hfile]
  · rw [hhomePath, hgone, if_pos prefix_rfl]
    exact nofun

/-- List and directories agree after a command that spares its package. -/
theorem Turns.inOrder (h : Agrees c s) (ht : Turns c s net k r c' s') (hspares : k.Spares s') : InOrder s' := by
  cases ht with
  | nothing hk hr hin hsame => exact ⟨c, h.congr hin hsame⟩
  | lost hp hname hserved hr hin hgone => exact absurd (spoilt_of_gone h hname hin hgone) (hspares _ hp)
  | @placed _ _ version _ cleared p _ _ _ _ hp hserved hc hs hhome =>
    have hnames : ∀ n, n ∈ c'.names ↔ n = p.name ∨ n ∈ c.names := by
      intro n
      rw [hc, Config.mem_names_enter]
      cases cleared with
      | false => rfl
      | true =>
        simp only [if_true, Config.mem_names_strike]
        tauto
    have hregular : c'.Regular := by
      rw [hc]
      cases cleared with
      | false => exact h.regular.enter p.name version
      | true => exact (h.regular.strike p.name).enter p.name version
    have hlisted : p.name ∈ c'.names := (hnames p.name).2 (.inl rfl)
    refine ⟨c', hs.agrees h hregular (fun n hne => by rw [hnames, or_iff_right hne]) ?_⟩
    rw [if_pos hlisted]
    by_contra hno
    obtain ⟨text, hw, hlist⟩ := hs.list
    obtain ⟨hlistPath, -, hhomePath⟩ := paths_of_inside hs.inside
    exact hspares p hp ⟨_, c', hlistPath ▸ hlist, ofContent_written hregular hw, hlisted, hhomePath p.name ▸ hno⟩
  | @removed _ p _ hp hs hhome =>
    have hnot : p.name ∉ (c.strike p.name).names := fun hmem => (Config.mem_names_strike.1 hmem).1 rfl
    refine ⟨_, hs.agrees h (h.regular.strike p.name) (fun n hne => by rw [Config.mem_names_strike, and_iff_right hne]) ?_⟩
    rw [hhome, if_neg hnot]

theorem Turns.inOrder_iff (h : Agrees c s) (ht : Turns c s net k r c' s') : InOrder s' ↔ k.Spares s' :=
  ⟨fun hin _ _ => hin.not_spoilt, ht.inOrder h⟩

/-- A command that reports success spares its package, if the archive makes a directory. -/
theorem Turns.spares (h : Agrees c s) (ht : Turns c s net k (.ok true) c' s')
    (hnet : ∀ server p version body, net server p = some (version, body) → MakesDir body) : k.Spares s' := by
  cases ht with
  | nothing hk hr | lost hp hname hserved hr => exact absurd rfl hr
  | placed hp hserved hc hs hhome =>
    rintro p' hp' ⟨-, -, -, -, -, hno⟩
    rw [Command.text, hp] at hp'
    cases hp'
    refine hno ?_
    rw [(paths_of_inside hs.inside).2.2]
    exact hhome (.inr ⟨rfl, hnet _ _ _ _ hserved⟩)
  | removed hp hs hhome =>
    rintro p' hp' ⟨content, c'', hfile, hcontent, hname, -⟩
    rw [Command.text, hp] at hp'
    cases hp'
    -- the list that was written does not have the package
    obtain ⟨text, hw, hlist⟩ := hs.list
    rw [(paths_of_inside hs.inside).1, hlist] at hfile
    cases hfile
    rw [ofContent_written (h.regular.strike _) hw] at hcontent
    cases hcontent
    exact (Config.mem_names_strike.1 hname).1 rfl

end

/-! ## Sequences of commands -/

/-- A command with the network that it meets. -/
structure Visit where
  command : Command
  routes : List (String × Response)

/-- The machine with the network of a visit. -/
def Visit.arrive (v : Visit) (m : Machine) : Machine := { m with world := { m.world with routes := v.routes } }

/-- The machine after the list was read and the command was carried out. -/
def Visit.after (v : Visit) (m : Machine) : Machine := ((do v.command.run.start (← Config.load)) (v.arrive m)).2

def afterVisits (m : Machine) (visits : List Visit) : Machine := visits.foldl (fun m v => v.after m) m

/-- Each of the commands spares its package. -/
def AllSpare : Machine → List Visit → Prop
  | _, [] => True
  | m, v :: visits => v.command.Spares (v.after m).world.files ∧ AllSpare (v.after m) visits

section

variable {c : Config} {m : Machine}

theorem Visit.inOrder_iff (v : Visit) (h : Agrees c m.world.files) (hplain : v.command.Plain) :
    InOrder (v.after m).world.files ↔ v.command.Spares (v.after m).world.files := by
  have harrive : Agrees c (v.arrive m).world.files := h
  have hafter : (v.after m).world.files = (v.command.run c (v.arrive m)).2.world.files := by
    rw [Visit.after, Action.bind_of_ok harrive.load]
    rfl
  rw [hafter]
  exact (v.command.run_turns harrive hplain).inOrder_iff harrive

/-- Over a sequence of commands list and directories agree all the time just if each of them spares its package. -/
theorem inOrder_all_iff (visits : List Visit) (h : InOrder m.world.files) (hplain : ∀ v ∈ visits, v.command.Plain) :
    (∀ n, InOrder (afterVisits m (visits.take n)).world.files) ↔ AllSpare m visits := by
  induction visits generalizing m with
  | nil => simp only [take_nil, afterVisits, foldl_nil, h, implies_true, AllSpare]
  | cons v visits ih =>
    obtain ⟨c, hc⟩ := h
    have hstep := v.inOrder_iff hc (hplain v mem_cons_self)
    have hrest := fun hv => ih (m := v.after m) hv fun v' hv' => hplain v' (mem_cons_of_mem _ hv')
    constructor
    · intro hall
      have hv : InOrder (v.after m).world.files := hall 1
      exact ⟨hstep.1 hv, (hrest hv).1 fun n => hall (n + 1)⟩
    · rintro ⟨hspares, hlater⟩ n
      have hv := hstep.2 hspares
      cases n with
      | zero => exact ⟨c, hc⟩
      | succ n => exact (hrest hv).2 hlater n

/-! ## One installed package -/

/-- The list with one package. -/
def onePackage : Config := ⟨[(installedKey, .obj [("pkg", .str "1")])]⟩

/-- The text of that list. -/
def onePackageText : String := "\x7b\"installed_packages\": \x7b\"pkg\": \"1\"\x7d\x7d"

/-- A store with that list and the directory of the package. -/
def onePackageFiles : FileStore where
  entries := [(["b"], .dir), (["b", "p"], .dir), (["b", "p", packageListName], .file onePackageText.toUTF8),
    (["b", "p", installedName], .dir), (["b", "p", installedName, "pkg"], .dir)]
  current := ["b"]
  base := "b"
  workDir := ["b"]
  packageDir := ["b", "p"]

/-- A process there, without a network. -/
def onePackageMachine : Machine where
  heap := .initial
  world := ⟨[], "", "", onePackageFiles, [], [], [], 0.0, 0.5, []⟩
  pending := ""

theorem onePackage_regular : onePackage.Regular where
  canonical := by
    refine .obj (by decide) fun e he => ?_
    rw [List.mem_singleton.1 he]
    refine .obj (by decide) fun e he => ?_
    rw [List.mem_singleton.1 he]
    exact .str "1"
  installed := rfl

theorem onePackage_agrees : Agrees onePackage onePackageMachine.world.files := by
  obtain ⟨text, hw⟩ := onePackage_regular.canonical.written
  have htext : text = onePackageText := by
    have hrender : (Json.obj onePackage.fields).render = .ok onePackageText := by decide +kernel
    rw [hw.render] at hrender
    exact Except.ok.inj hrender
  constructor
  · refine ⟨⟨rfl, ?_⟩, ?_, rfl, .inl rfl⟩
    · show ∀ n ∈ ["b", "p"], IsStep n
      decide
    · exact fun | 0, _ => rfl | 1, _ => rfl
  · exact onePackage_regular
  · exact ⟨_, rfl, htext ▸ ofContent_written onePackage_regular hw⟩
  · intro n hn
    rw [List.mem_singleton.1 hn]
    decide
  · exact fun _ _ => rfl
  · intro n hn
    have hnames : onePackage.names = ["pkg"] := rfl
    rw [hnames]
    by_cases hpkg : n = "pkg"
    · rw [hpkg]
      rfl
    · rw [if_neg (by simpa using hpkg)]
      show (List.find? _ _).map _ = none
      simp [onePackageMachine, onePackageFiles, homePath, installedPath, Ne.symm hpkg]

theorem upgrade_named : PackageName.parse "pkg" = .ok ⟨"pkg", none⟩ := by cbv

theorem upgrade_plain : (Command.install "pkg" "abc" true).Plain := by
  intro p hp
  rw [Command.text, upgrade_named] at hp
  cases hp
  decide

/-! ## Failures -/

/-- A command that does not report success leaves everything as it was, unless it has cleared a directory away without
an archive to put in its place, or has entered a package whose archive is bad. List and directories agree after a command,
and all along a sequence of commands, just if none of them leaves its package in the list without a directory. Those that
report success do not, if archives make directories. -/
theorem failures_harmless_unless_half_done (h : Agrees c m.world.files) :
    (∀ k : Command, k.Plain →
      ((k.run c m).1.1 ≠ .ok true →
        (¬ k.Upgrades c ∧ (k.run c m).1.2 = c ∧ ∀ q, (k.run c m).2.world.files.get? q = m.world.files.get? q) ∨
        (∃ text server p, k = .install text server true ∧ PackageName.parse text = .ok p ∧ p.name ∈ c.names ∧
          served? m.world server p = none ∧ (k.run c m).1.2 = c.strike p.name ∧
          ∀ q, (k.run c m).2.world.files.get? q =
            if homePath m.world.files p.name <+: q then none else m.world.files.get? q) ∨
        ∃ text server upgrade p version body, ∃ cleared : Bool, k = .install text server upgrade ∧
          PackageName.parse text = .ok p ∧
          served? m.world server p = some (version, body) ∧
          (k.run c m).1.2 = (if cleared then c.strike p.name else c).enter p.name version ∧
          Rewritten (k.run c m).1.2 m.world.files p.name (k.run c m).2.world.files) ∧
      (InOrder (k.run c m).2.world.files ↔ k.Spares (k.run c m).2.world.files) ∧
      ((k.run c m).1.1 = .ok true →
        (∀ server p version body, served? m.world server p = some (version, body) → MakesDir body) →
        InOrder (k.run c m).2.world.files)) ∧
    ∀ visits : List Visit, (∀ v ∈ visits, v.command.Plain) →
      ((∀ n, InOrder (afterVisits m (visits.take n)).world.files) ↔ AllSpare m visits) := by
  refine ⟨fun k hplain => ?_, fun visits hplain => inOrder_all_iff visits ⟨c, h⟩ hplain⟩
  have hturns : Turns c _ _ k _ _ _ := k.run_turns h hplain
  refine ⟨fun hfailed => ?_, hturns.inOrder_iff h, fun hok hnet => ?_⟩
  · generalize (k.run c m).1.1 = r at hturns hfailed
    generalize (k.run c m).1.2 = c' at hturns ⊢
    generalize (k.run c m).2.world.files = s' at hturns ⊢
    cases hturns with
    | nothing hk hr hin hsame => exact .inl ⟨hk, rfl, hsame⟩
    | lost hp hname hserved hr hin hgone => exact .inr (.inl ⟨_, _, _, rfl, hp, hname, hserved, rfl, hgone⟩)
    | placed hp hserved hc hs hhome => exact .inr (.inr ⟨_, _, _, _, _, _, _, rfl, hp, hserved, hc, hs⟩)
    | removed hp hs hhome => exact absurd rfl hfailed
  · rw [hok] at hturns
    exact hturns.inOrder h (hturns.spares h hnet)

theorem failures_harmless_unless_half_done_upgrade :
    Agrees onePackage onePackageMachine.world.files ∧ (Command.install "pkg" "abc" true).Plain ∧
      (InOrder ((Command.install "pkg" "abc" true).run onePackage onePackageMachine).2.world.files ↔
        (Command.install "pkg" "abc" true).Spares
          ((Command.install "pkg" "abc" true).run onePackage onePackageMachine).2.world.files) :=
  ⟨onePackage_agrees, upgrade_plain, ((failures_harmless_unless_half_done onePackage_agrees).1 _ upgrade_plain).2.1⟩

/-- An upgrade that gets no answer fails, and the directory of the package is gone, while the list still has the package. -/
theorem failed_upgrade_loses_directory :
    ∃ k : Command, (k.run onePackage onePackageMachine).1.1 ≠ .ok true ∧
      onePackageFiles.get? (homePath onePackageFiles "pkg") = some .dir ∧
      (k.run onePackage onePackageMachine).2.world.files.get? (homePath onePackageFiles "pkg") = none ∧
      (k.run onePackage onePackageMachine).2.world.files.get? (listPath onePackageFiles) =
        some (.file onePackageText.toUTF8) ∧
      "pkg" ∉ (k.run onePackage onePackageMachine).1.2.names ∧
      InOrder onePackageFiles ∧ ¬ InOrder (k.run onePackage onePackageMachine).2.world.files := by
  refine ⟨Command.install "pkg" "abc" true, ?_⟩
  have hturns : Turns _ _ _ (.install "pkg" "abc" true) _ _ _ := Command.run_turns _ onePackage_agrees upgrade_plain
  generalize ((Command.install "pkg" "abc" true).run onePackage onePackageMachine).1.1 = r at hturns ⊢
  generalize ((Command.install "pkg" "abc" true).run onePackage onePackageMachine).1.2 = c' at hturns ⊢
  generalize ((Command.install "pkg" "abc" true).run onePackage onePackageMachine).2.world.files = s' at hturns ⊢
  cases hturns with
  | nothing hk => exact absurd ⟨_, _, _, rfl, upgrade_named, List.mem_singleton.2 rfl, List.mem_singleton.2 rfl⟩ hk
  | lost hp hname hserved hr hin hgone =>
    rw [upgrade_named] at hp
    cases hp
    have hspoilt := spoilt_of_gone onePackage_agrees hname hin hgone
    replace hgone : ∀ q, s'.get? q = if homePath onePackageFiles "pkg" <+: q then none else onePackageFiles.get? q := hgone
    refine ⟨hr, rfl, ?_, ?_, ?_, ⟨_, onePackage_agrees⟩, fun h => h.not_spoilt hspoilt⟩
    · rw [hgone, if_pos prefix_rfl]
    · rw [hgone, if_neg homePath_not_above.1]
      rfl
    · exact fun h => (Config.mem_names_strike.1 h).1 rfl
  | placed hp hserved => cases hserved

end

end SmallScript.Packages
