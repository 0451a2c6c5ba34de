import SmallScript.World.FileStore

/-!
# Paths and what they lead to

A path below the base directory, all of whose parts are plain steps, is written with slashes between the parts.
`resolve_iff` says that its text leads there and nowhere else, exactly if everything above it is a directory. What the
operations on files do at such a path follows: `write_iff`, `makeDir_iff`, `exists?_iff`.

`Inside d s s'` says that the store has changed below one directory only.
-/

namespace SmallScript.World

open List

/-- The name of a file or directory: no empty name, none with a special meaning, and without slashes. -/
def IsStep (n : String) : Prop := n ≠ "" ∧ n ≠ "." ∧ n ≠ ".." ∧ '/' ∉ n.toList

instance (n : String) : Decidable (IsStep n) := inferInstanceAs (Decidable (_ ∧ _))

section

variable {p q : Path} {n : String}

/-! ## Texts of paths -/

theorem slashParts_intercalate (hp : ∀ n ∈ p, '/' ∉ n.toList) (hne : p ≠ []) : slashParts ("/".intercalate p) = p := by
  have hsplit : ((['/'] : List Char).intercalate (p.map String.toList)).splitOn '/' = p.map String.toList :=
    splitOn_intercalate '/' (by simpa using hp) (by simpa using hne)
  have hchars : ("/".intercalate p).toList = (['/'] : List Char).intercalate (p.map String.toList) :=
    String.toList_intercalate
  simp [slashParts, hchars, hsplit]

variable (hp : ∀ n ∈ p, IsStep n)
include hp

theorem filter_ne_empty : p.filter (· != "") = p :=
  List.filter_eq_self.2 fun n hn => bne_iff_ne.2 (hp n hn).1

theorem pathParts_intercalate : FileStore.pathParts ("/".intercalate p) = p := by
  cases p with
  | nil => decide
  | cons n ns =>
    have hslash : ∀ x ∈ n :: ns, '/' ∉ x.toList := fun x hx => (hp x hx).2.2.2
    rw [FileStore.pathParts, slashParts_intercalate hslash (cons_ne_nil n ns), filter_ne_empty hp]

/-- A slash in front or behind makes no difference to the parts. -/
theorem pathParts_slash_append : FileStore.pathParts ("/" ++ "/".intercalate p) = p := by
  have hslash : ∀ x ∈ "" :: p, '/' ∉ x.toList := List.forall_mem_cons.2 ⟨by decide, fun x hx => (hp x hx).2.2.2⟩
  cases p with
  | nil => decide
  | cons n ns =>
    have htext : "/" ++ "/".intercalate (n :: ns) = "/".intercalate ("" :: n :: ns) := by
      rw [String.intercalate_cons_cons, String.empty_append]
    rw [htext, FileStore.pathParts, slashParts_intercalate hslash (cons_ne_nil _ _), filter_cons_of_neg (by simp),
      filter_ne_empty hp]

theorem pathParts_append_slash : FileStore.pathParts ("/".intercalate p ++ "/") = p := by
  have hslash : ∀ x ∈ p ++ [""], '/' ∉ x.toList := by
    simp only [mem_append, mem_singleton]
    rintro x (hx | rfl)
    · exact (hp x hx).2.2.2
    · decide
  by_cases hne : p = []
  · subst hne
    decide
  · have htext : "/".intercalate p ++ "/" = "/".intercalate (p ++ [""]) := by
      rw [String.intercalate_append_of_ne_nil hne (cons_ne_nil _ _)]
      simp
    rw [htext, FileStore.pathParts, slashParts_intercalate hslash (by simp), filter_append, filter_ne_empty hp]
    simp

theorem intercalate_ne_empty (hne : p ≠ []) : "/".intercalate p ≠ "" := by
  intro h
  have hparts := pathParts_intercalate hp
  rw [h] at hparts
  exact hne hparts.symm

theorem startsWith_intercalate : ("/".intercalate p).startsWith "/" = false := by
  rw [String.startsWith_string_eq_false_iff]
  rintro ⟨rest, hrest⟩
  have hparts := slashParts_intercalate (p := p) fun x hx => (hp x hx).2.2.2
  cases p with
  | nil => simp at hrest
  | cons n ns =>
    have hfirst := hparts (cons_ne_nil n ns)
    have hsplit : ([] ++ '/' :: rest).splitOn '/' = [] :: rest.splitOn '/' :=
      splitOn_append_cons_self_of_not_mem not_mem_nil rest
    rw [slashParts, ← hrest, show "/".toList ++ rest = [] ++ '/' :: rest from rfl, hsplit] at hfirst
    exact (hp n mem_cons_self).1 (head_eq_of_cons_eq hfirst).symm

theorem endsWith_intercalate : ("/".intercalate p).endsWith "/" = false := by
  rw [String.endsWith_eq_endsWith_toSlice, ← Bool.not_eq_true, String.Slice.endsWith_string_iff]
  rintro ⟨front, hfront⟩
  have hlast := congrArg List.getLast? hfront
  rcases eq_nil_or_concat p with rfl | ⟨above, n, rfl⟩
  · simp at hlast
  · obtain ⟨before, hbefore⟩ : ∃ before, ("/".intercalate (above ++ [n])).toList = before ++ n.toList := by
      by_cases habove : above = []
      · exact ⟨[], by rw [habove]; simp⟩
      · rw [String.intercalate_append_of_ne_nil habove (cons_ne_nil _ _), String.intercalate_singleton]
        exact ⟨_, String.toList_append⟩
    have hn := hp n (by simp)
    have hne : n.toList ≠ [] := fun h => hn.1 (String.toList_eq_nil_iff.1 h)
    have htext : ("/".intercalate (above ++ [n])).toSlice.copy.toList = before ++ n.toList := by simpa using hbefore
    rw [concat_eq_append, htext, getLast?_append, getLast?_append, getLast?_eq_some_getLast hne] at hlast
    have hslash : '/' = n.toList.getLast hne := by simpa using hlast
    exact hn.2.2.2 (hslash ▸ getLast_mem hne)

/-- A path in shortest form is left as it is. -/
theorem foldParts_of_steps (done : List String) : foldParts done p = done.reverse ++ p := by
  induction p generalizing done with
  | nil => simp [foldParts]
  | cons n ns ih =>
    rw [forall_mem_cons] at hp
    simp [foldParts, hp.1.2.2.1, ih hp.2]

theorem shortPath_of_parts {text : String} (hparts : FileStore.pathParts text = p) (hne : p ≠ [])
    (hstart : text.startsWith "/" = false) : shortPath text = "/".intercalate p := by
  have hdots : p.filter (· != ".") = p := List.filter_eq_self.2 fun n hn => bne_iff_ne.2 (hp n hn).2.1
  simp [shortPath, hparts, hdots, foldParts_of_steps hp, hstart, hne]

theorem parentPath_intercalate (hne : p ≠ []) :
    parentPath ("/".intercalate p) = "/".intercalate p.dropLast := by
  rw [parentPath, slashParts_intercalate (fun x hx => (hp x hx).2.2.2) hne]

end

namespace FileStore

variable {s s' : FileStore} {p q : Path} {e : Entry}

/-! ## Entries -/

@[simp]
theorem get?_nil : s.get? [] = some .dir := rfl

theorem get?_of_ne_nil (hq : q ≠ []) : s.get? q = (s.entries.find? (·.1 == q)).map (·.2) := by
  simp [get?, hq]

theorem get?_set (hp : p ≠ []) (q : Path) : (s.set p e).get? q = if q = p then some e else s.get? q := by
  by_cases hq : q = []
  · subst hq
    simp [hp.symm]
  unfold set
  split
  · next hsome =>
    have hsame : ((·.1 == q) ∘ fun x : Path × Entry => if x.1 == p then (p, e) else x) = fun x => x.1 == q := by
      funext x
      by_cases hx : x.1 = p
      · simp [hx]
      · simp [hx]
    rw [get?_of_ne_nil hq, get?_of_ne_nil hq, find?_map, hsame]
    by_cases hqp : q = p
    · subst hqp
      rw [get?_of_ne_nil hq] at hsome
      cases hx : s.entries.find? (·.1 == q) with
      | none => simp [hx] at hsome
      | some x =>
        have hxq : x.1 = q := by simpa using find?_some hx
        simp [hxq]
    · cases hx : s.entries.find? (·.1 == q) with
      | none => simp [hqp]
      | some x =>
        have hxq : x.1 = q := by simpa using find?_some hx
        simp [hxq, hqp]
  · next hnone =>
    rw [Option.not_isSome_iff_eq_none, get?_of_ne_nil hp, Option.map_eq_none_iff] at hnone
    rw [get?_of_ne_nil hq, get?_of_ne_nil hq, find?_append]
    by_cases hqp : q = p
    · subst hqp
      simp [hnone]
    · have hne : p ≠ q := Ne.symm hqp
      simp [hqp, hne]

@[simp]
theorem base_set : (s.set p e).base = s.base := by
  unfold set
  split <;> rfl

@[simp]
theorem packageDir_set : (s.set p e).packageDir = s.packageDir := by
  unfold set
  split <;> rfl

theorem get?_eraseTree (hp : p ≠ []) (q : Path) : (s.eraseTree p).get? q = if p <+: q then none else s.get? q := by
  by_cases hq : q = []
  · subst hq
    simp [hp]
  rw [get?_of_ne_nil hq, get?_of_ne_nil hq, eraseTree, find?_filter]
  split
  · next habove =>
    rw [Option.map_eq_none_iff, find?_eq_none]
    rintro x - hx
    simp only [decide_eq_true_eq, Bool.not_eq_true', beq_iff_eq] at hx
    obtain ⟨hno, rfl⟩ := hx
    simp [List.isPrefixOf_iff_prefix.2 habove] at hno
  · next hno =>
    have hsame : (fun x : Path × Entry => !p.isPrefixOf x.1 && x.1 == q) = fun x => x.1 == q := by
      funext x
      by_cases hx : x.1 = q
      · subst hx
        simp [← Bool.not_eq_true, isPrefixOf_iff_prefix, hno]
      · simp [hx]
    simp only [Bool.decide_and, Bool.decide_eq_true, hsame]

/-! ## Texts lead to paths -/

/-- The path lies below the base directory, and all its parts are plain steps. -/
def Under (s : FileStore) (p : Path) : Prop := p.head? = some s.base ∧ ∀ n ∈ p, IsStep n

/-- Everything above the path is a directory. -/
def Housed (s : FileStore) (p : Path) : Prop := ∀ i < p.length, s.get? (p.take i) = some .dir

theorem Under.ne_nil (h : s.Under p) : p ≠ [] := by
  rintro rfl
  cases h.1

theorem Under.take (h : s.Under p) (i : Nat) : s.Under (p.take (i + 1)) := by
  obtain ⟨n, ns, rfl⟩ := exists_cons_of_ne_nil h.ne_nil
  exact ⟨h.1, fun x hx => h.2 x (mem_of_mem_take hx)⟩

theorem Under.append (h : s.Under p) (hq : ∀ n ∈ q, IsStep n) : s.Under (p ++ q) := by
  obtain ⟨n, ns, rfl⟩ := exists_cons_of_ne_nil h.ne_nil
  exact ⟨h.1, fun x hx => (List.mem_append.1 hx).elim (h.2 x) (hq x)⟩

theorem Housed.get? (h : s.Housed p) (hq : q <+: p) (hne : q ≠ p) : s.get? q = some .dir := by
  rw [List.prefix_iff_eq_take.1 hq]
  refine h q.length (Nat.lt_of_le_of_ne hq.length_le fun hlength => hne ?_)
  exact hq.eq_of_length hlength

theorem Under.dropLast (h : s.Under p) (hne : p.dropLast ≠ []) : s.Under p.dropLast := by
  obtain ⟨i, hi⟩ := Nat.exists_eq_succ_of_ne_zero (Nat.ne_of_gt (List.length_pos_iff.2 hne))
  rw [length_dropLast] at hi
  rw [dropLast_eq_take, hi]
  exact h.take i

theorem Housed.dropLast (h : s.Housed p) : s.Housed p.dropLast := by
  intro i hi
  rw [length_dropLast] at hi
  rw [dropLast_eq_take, take_take, Nat.min_eq_left (Nat.le_of_lt hi)]
  exact h i (by omega)

theorem housed_append_singleton {n : String} : s.Housed (p ++ [n]) ↔ s.Housed p ∧ s.get? p = some .dir := by
  simp only [Housed, length_append, length_singleton, Nat.forall_lt_succ_right, take_left']
  refine and_congr_left fun _ => forall_congr' fun i => ?_
  refine imp_congr_right fun hi => ?_
  rw [take_append_of_le_length (Nat.le_of_lt hi)]

/-- Plain steps lead down, as long as there are directories. -/
theorem walk_eq_ok_iff {here : Path} {steps : List String} (hsteps : ∀ n ∈ steps, IsStep n) :
    s.walk here steps = .ok q ↔
      q = here ++ steps ∧ ∀ i < steps.length, s.get? (here ++ steps.take i) = some .dir := by
  induction steps generalizing here with
  | nil => simp [walk, eq_comm]
  | cons n rest ih =>
    rw [forall_mem_cons] at hsteps
    have hnext : (if n == "." then here else if n == ".." then here.dropLast else here ++ [n]) = here ++ [n] := by
      simp [hsteps.1.2.1, hsteps.1.2.2.1]
    have hall : (∀ i < (n :: rest).length, s.get? (here ++ (n :: rest).take i) = some .dir) ↔
        s.get? here = some .dir ∧ ∀ i < rest.length, s.get? ((here ++ [n]) ++ rest.take i) = some .dir := by
      rw [length_cons, Nat.forall_lt_succ_left]
      simp
    rw [hall, walk, hnext]
    cases hhere : s.get? here with
    | none => simp
    | some entry =>
      cases entry with
      | file content => simp
      | dir =>
        have hstep : s.walk (here ++ [n]) rest = .ok q ↔ q = here ++ n :: rest ∧
            ∀ i < rest.length, s.get? ((here ++ [n]) ++ rest.take i) = some .dir := by
          rw [ih hsteps.2, List.append_assoc, singleton_append]
        simp only [true_and]
        rw [← hstep]
        cases hget : s.get? (here ++ [n]) with
        | some entry => cases rest <;> rfl
        | none =>
          cases rest with
          | nil => rfl
          | cons r rest =>
            -- the next step leads to nothing, from which there is no further one
            rw [hstep]
            refine ⟨fun h => (by cases h), fun h => ?_⟩
            have hfirst := h.2 0 (Nat.succ_pos _)
            simp [hget] at hfirst

theorem startOf_intercalate (hp : s.Under p) : s.startOf ("/".intercalate p) = ([s.base], p.tail) := by
  obtain ⟨n, ns, rfl⟩ := exists_cons_of_ne_nil hp.ne_nil
  obtain rfl : n = s.base := Option.some.inj hp.1
  have hns : ∀ x ∈ ns, IsStep x := fun x hx => hp.2 x (mem_cons_of_mem _ hx)
  have hrest : pathParts (String.ofList (("/".intercalate (s.base :: ns)).toList.drop s.base.length)) = ns ∧
      ("/".intercalate (s.base :: ns) = s.base ∨ ("/".intercalate (s.base :: ns)).startsWith (s.base ++ "/") = true) := by
    cases ns with
    | nil =>
      rw [String.intercalate_singleton]
      refine ⟨?_, .inl rfl⟩
      rw [drop_eq_nil_of_le (Nat.le_of_eq String.length_toList)]
      decide
    | cons m ms =>
      have htext : "/".intercalate (s.base :: m :: ms) = s.base ++ ("/" ++ "/".intercalate (m :: ms)) := by
        rw [String.intercalate_cons_cons, String.append_assoc]
      rw [htext]
      refine ⟨?_, .inr ?_⟩
      · rw [String.toList_append, ← String.length_toList, drop_left, String.ofList_toList, pathParts_slash_append hns]
      · rw [String.startsWith_string_iff]
        exact ⟨("/".intercalate (m :: ms)).toList, by simp⟩
  have hbase : ("/".intercalate (s.base :: ns) == s.base || ("/".intercalate (s.base :: ns)).startsWith (s.base ++ "/")) =
      true := by
    rw [Bool.or_eq_true, beq_iff_eq]
    exact hrest.2
  rw [startOf, if_pos hbase, hrest.1, tail_cons]

/-- The text of a path leads to the path, if everything above it is a directory, and to nothing otherwise. -/
theorem resolve_iff (hp : s.Under p) : s.resolve ("/".intercalate p) = .ok q ↔ q = p ∧ s.Housed p := by
  have hnonempty : ("/".intercalate p).isEmpty = false := by
    rw [← Bool.not_eq_true, String.isEmpty_iff]
    exact intercalate_ne_empty hp.2 hp.ne_nil
  obtain ⟨n, ns, rfl⟩ := exists_cons_of_ne_nil hp.ne_nil
  obtain rfl : n = s.base := Option.some.inj hp.1
  have hwalk : s.walk [s.base] ns = .ok q ↔ q = s.base :: ns ∧ s.Housed (s.base :: ns) := by
    rw [walk_eq_ok_iff fun x hx => hp.2 x (mem_cons_of_mem _ hx), Housed, length_cons, Nat.forall_lt_succ_left]
    simp
  rw [resolve, hnonempty, startOf_intercalate hp, endsWith_intercalate hp.2]
  simp only [Bool.false_eq_true, if_false, tail_cons]
  rw [← hwalk]
  cases s.walk [s.base] ns <;> rfl

theorem resolve_of_housed (hp : s.Under p) (h : s.Housed p) : s.resolve ("/".intercalate p) = .ok p :=
  (resolve_iff hp).2 ⟨rfl, h⟩

theorem resolve_cases (hp : s.Under p) :
    s.Housed p ∧ s.resolve ("/".intercalate p) = .ok p ∨
      ∃ c, s.resolve ("/".intercalate p) = .error c ∧ ¬ s.Housed p := by
  cases hr : s.resolve ("/".intercalate p) with
  | error c =>
    refine .inr ⟨c, rfl, fun h => ?_⟩
    rw [resolve_of_housed hp h] at hr
    cases hr
  | ok q =>
    obtain ⟨rfl, h⟩ := (resolve_iff hp).1 hr
    exact .inl ⟨h, rfl⟩

/-! ## Operations on files -/

theorem exists?_iff (hp : s.Under p) : s.exists? ("/".intercalate p) = true ↔ s.Housed p ∧ (s.get? p).isSome = true := by
  unfold exists?
  rcases resolve_cases hp with ⟨h, hr⟩ | ⟨c, hr, hno⟩
  · simp [hr, h]
  · simp [hr, hno]

theorem isDir_iff (hp : s.Under p) : s.isDir ("/".intercalate p) = true ↔ s.Housed p ∧ s.get? p = some .dir := by
  unfold isDir
  rcases resolve_cases hp with ⟨h, hr⟩ | ⟨c, hr, hno⟩
  · rcases hget : s.get? p with _ | _ | content <;> simp [hr, hget, h]
  · simp [hr, hno]

theorem read_of_file (hp : s.Under p) (h : s.Housed p) {content : ByteArray} (hf : s.get? p = some (.file content)) :
    s.read ("/".intercalate p) = .ok content := by
  unfold read
  rw [resolve_of_housed hp h]
  simp only [bind, Except.bind, hf]
  rfl

theorem withPath_ok {α : Type} (text : String) (a : α) : withPath text (.ok a) = .ok a := rfl

theorem withPath_error {α : Type} (text : String) (cause : FileCause) :
    withPath text (.error cause : Except FileCause α) = .error ⟨cause, text, none⟩ := rfl

theorem write_iff (hp : s.Under p) {content : ByteArray} :
    s.write ("/".intercalate p) content = .ok s' ↔
      s.Housed p ∧ s.get? p ≠ some .dir ∧ s' = s.set p (.file content) := by
  unfold write
  rcases resolve_cases hp with ⟨h, hr⟩ | ⟨c, hr, hno⟩
  · simp only [hr, bind, Except.bind]
    rcases s.get? p with _ | _ | old
    · simp [endsWith_intercalate hp.2, withPath_ok, h, pure, Except.pure, eq_comm]
    · simp [withPath_error]
    · simp [withPath_ok, h, pure, Except.pure, eq_comm]
  · simp [hr, bind, Except.bind, withPath_error, hno]

theorem makeDir_iff (hp : s.Under p) :
    s.makeDir ("/".intercalate p) = .ok s' ↔ s.Housed p ∧ s.get? p = none ∧ s' = s.set p .dir := by
  unfold makeDir
  rcases resolve_cases hp with ⟨h, hr⟩ | ⟨c, hr, hno⟩
  · simp only [hr, bind, Except.bind]
    cases s.get? p with
    | none => simp [withPath_ok, h, pure, Except.pure, eq_comm]
    | some e => simp [withPath_error]
  · simp [hr, bind, Except.bind, withPath_error, hno]

theorem removeTree_of_dir (hp : s.Under p) (h : s.Housed p) (hd : s.get? p = some .dir) :
    s.removeTree ("/".intercalate p) = .ok (s.eraseTree p) := by
  unfold removeTree
  rw [resolve_of_housed hp h]
  simp only [bind, Except.bind, hd]
  rfl

/-! ## Changes below one directory -/

/-- The store has changed below a directory only, and the directory is still there if it was. -/
structure Inside (d : Path) (s s' : FileStore) : Prop where
  base : s'.base = s.base
  packageDir : s'.packageDir = s.packageDir
  outside : ∀ q, ¬ d <+: q → s'.get? q = s.get? q
  kept : s.get? d = some .dir → s'.get? d = some .dir

variable {d : Path} {s'' : FileStore}

theorem Inside.refl (d : Path) (s : FileStore) : Inside d s s := ⟨rfl, rfl, fun _ _ => rfl, id⟩

theorem Inside.trans (h : Inside d s s') (h' : Inside d s' s'') : Inside d s s'' :=
  ⟨h'.base.trans h.base, h'.packageDir.trans h.packageDir, fun q hq => (h'.outside q hq).trans (h.outside q hq),
    fun hd => h'.kept (h.kept hd)⟩

theorem Inside.set (hd : d <+: p) (hp : p ≠ []) (he : s.get? p = some .dir → e = .dir) : Inside d s (s.set p e) := by
  refine ⟨base_set, packageDir_set, fun q hq => ?_, fun hdir => ?_⟩
  · rw [get?_set hp, if_neg]
    rintro rfl
    exact hq hd
  · rw [get?_set hp]
    split
    · next hdp => rw [he (hdp ▸ hdir)]
    · exact hdir

theorem Inside.eraseTree (hd : d <+: p) (hne : d ≠ p) : Inside d s (s.eraseTree p) := by
  have hp : p ≠ [] := by
    rintro rfl
    exact hne (List.prefix_nil.1 hd)
  refine ⟨rfl, rfl, fun q hq => ?_, fun hdir => ?_⟩
  · rw [get?_eraseTree hp, if_neg fun habove => hq (hd.trans habove)]
  · rw [get?_eraseTree hp, if_neg fun habove => hne (hd.eq_of_length (Nat.le_antisymm hd.length_le habove.length_le)), hdir]

/-- What is below a directory is below those above it. -/
theorem Inside.above {d' : Path} (h : Inside d s s') (hd : d' <+: d) (hne : d' ≠ d) : Inside d' s s' := by
  refine ⟨h.base, h.packageDir, fun q hq => h.outside q fun habove => hq (hd.trans habove), fun hdir => ?_⟩
  rw [h.outside d' fun habove => hne (hd.eq_of_length (Nat.le_antisymm hd.length_le habove.length_le)), hdir]

/-- What is above the directory is as it was. -/
theorem Inside.housed (h : Inside d s s') (hd : s.Housed d) : s'.Housed d := by
  intro i hi
  rw [h.outside (d.take i), hd i hi]
  intro habove
  have hlength := habove.length_le
  rw [length_take] at hlength
  omega

theorem Inside.under (h : Inside d s s') (hp : s.Under p) : s'.Under p := ⟨h.base ▸ hp.1, hp.2⟩

/-- What every step of a loop keeps is kept by the loop. -/
theorem foldlM_keeps {P : FileStore → Prop} {f : FileStore → Nat → Except FileFault FileStore}
    (hstep : ∀ s i s', P s → f s i = .ok s' → P s') (is : List Nat) (hs : P s) (h : is.foldlM f s = .ok s') : P s' := by
  induction is generalizing s with
  | nil =>
    cases h
    exact hs
  | cons i is ih =>
    rw [foldlM_cons] at h
    cases hfirst : f s i with
    | error fault =>
      rw [hfirst] at h
      cases h
    | ok s1 =>
      rw [hfirst] at h
      exact ih (hstep s i s1 hs hfirst) h

/-- The directories that are made on the way to a path below a directory are below it. -/
theorem makePath_inside (hp : s.Under p) (hd : d <+: p) (hhoused : s.Housed d)
    (h : s.makePath ("/".intercalate p) = .ok s') : Inside d s s' := by
  unfold makePath at h
  rw [pathParts_intercalate hp.2] at h
  refine foldlM_keeps (fun s1 i s2 hinside hrun => ?_) _ (.refl d s) h
  have hunder : s1.Under (p.take (i + 1)) := (hinside.under hp).take i
  simp only [startsWith_intercalate hp.2, Bool.false_eq_true, if_false, String.empty_append] at hrun
  split at hrun
  · cases hrun
    exact hinside
  · obtain ⟨-, hnone, rfl⟩ := (makeDir_iff hunder).1 hrun
    refine hinside.trans (.set ?_ hunder.ne_nil fun _ => rfl)
    -- all that is above the directory is there already
    rcases prefix_or_prefix_of_prefix hd ( take_prefix (i + 1) p) with hbelow | habove
    · exact hbelow
    · by_cases heq : p.take (i + 1) = d
      · exact heq ▸ prefix_rfl
      · rw [(hinside.housed hhoused).get? habove heq] at hnone
        cases hnone

end FileStore

end SmallScript.World
