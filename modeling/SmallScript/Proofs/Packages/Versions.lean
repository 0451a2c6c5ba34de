import Mathlib.Data.List.SplitBy
import SmallScript.Packages.Version
import SmallScript.Proofs.Number.Texts

/-!
# The normal form of a version

The text of a version that was read determines it, `Version.Normal.eq_of_text`. In front of its local mark the text is
a row of numbers with words in front of them, `Version.steps`; words have no digits, so the row can be told from the
text.
-/

namespace SmallScript.Packages

open Text Number List Nat String Option Version

variable {w : Version} {cs rest : List Char}

variable {v : Version}

/-- A part of a local mark as it is read: a text is not empty, without capitals, and not a number. -/
def LocalPart.Normal : LocalPart → Prop
  | .number _ => True
  | .text s => s.toList ≠ [] ∧ (∀ c ∈ s.toList, c.isAlphanum = true ∧ c.toLower = c) ∧ s.toList.all Char.isDigit = false

/-- A version as it is read. -/
structure Version.Normal (v : Version) : Prop where
  release : v.release ≠ []
  build : ∀ part ∈ v.build, part.Normal

/-! ## The letters of a text -/

/-- A row of numbers with words in front of them. -/
abbrev Steps := List (List Char × Nat)

def Steps.letters (steps : Steps) : List Char := steps.flatMap fun s => s.1 ++ digitsOf s.2

/-- The numbers of a release, with a word in front of the first one. -/
def releaseSteps (word : List Char) : List Nat → Steps
  | [] => []
  | n :: ns => (word, n) :: ns.map (['.'], ·)

/-- The numbers in front of the marks. -/
def Version.numberSteps (v : Version) : Steps :=
  if v.epoch = 0 then releaseSteps [] v.release else ([], v.epoch) :: releaseSteps ['!'] v.release

/-- The numbers of the marks. -/
def Version.markSteps (v : Version) : Steps :=
  (v.pre.map fun mark => (mark.1.text.toList, mark.2)).toList ++
    ((v.post.map (['.', 'p', 'o', 's', 't'], ·)).toList ++ (v.dev.map (['.', 'd', 'e', 'v'], ·)).toList)

def Version.steps (v : Version) : Steps := v.numberSteps ++ v.markSteps

def LocalPart.letters : LocalPart → List Char
  | .number n => digitsOf n
  | .text s => s.toList

def buildLetters (parts : List LocalPart) : List Char :=
  if parts.isEmpty then [] else '+' :: ['.'].intercalate (parts.map LocalPart.letters)

theorem toList_toString (n : Nat) : (toString n).toList = digitsOf n := toList_repr

theorem LocalPart.toList_render (part : LocalPart) : part.render.toList = part.letters := by
  cases part with
  | number n => exact toList_toString n
  | text s => rfl

theorem intercalate_cons (w : List Char) (ws : List (List Char)) :
    ['.'].intercalate (w :: ws) = w ++ ws.flatMap ('.' :: ·) := by
  induction ws generalizing w with
  | nil => simp [List.intercalate]
  | cons v ws ih =>
    rw [flatMap_cons, cons_append, ← ih]
    simp [List.intercalate]

theorem toList_release (word : List Char) {ns : List Nat} (h : ns ≠ []) :
    word ++ (".".intercalate (ns.map toString)).toList = (releaseSteps word ns).letters := by
  obtain ⟨n, ns, rfl⟩ := exists_cons_of_ne_nil h
  have hnumbers : ((n :: ns).map toString).map String.toList = digitsOf n :: ns.map digitsOf := by
    rw [List.map_map]
    exact map_congr_left fun n _ => toList_toString n
  rw [toList_intercalate, hnumbers, show ".".toList = ['.'] from rfl, intercalate_cons]
  simp [Steps.letters, releaseSteps, flatMap_map]

theorem Version.Normal.toList_text (h : v.Normal) :
    v.text.toList = v.steps.letters ++ buildLetters v.build := by
  have hparts : (v.build.map (·.render)).map String.toList = v.build.map LocalPart.letters := by
    rw [List.map_map]
    exact map_congr_left fun part _ => part.toList_render
  have hnumbers : (if v.epoch = 0 then "" else s!"{v.epoch}!").toList ++
      (".".intercalate (v.release.map toString)).toList = v.numberSteps.letters := by
    unfold numberSteps
    split
    · exact toList_release [] h.release
    · rw [toList_append, toList_toString, List.append_assoc, show (toString "!").toList = ['!'] from rfl,
        toList_release ['!'] h.release]
      rfl
  have hletters (p q : Steps) : (p ++ q).letters = p.letters ++ q.letters := flatMap_append
  simp only [text, steps, toList_append, List.append_assoc]
  rw [← List.append_assoc, hnumbers]
  simp only [markSteps, hletters, List.append_assoc]
  refine congrArg₂ _ rfl (congrArg₂ _ ?_ (congrArg₂ _ ?_ (congrArg₂ _ ?_ ?_)))
  · cases v.pre with
    | none => rfl
    | some mark => simp [Steps.letters, digitsOf]
  · cases v.post with
    | none => rfl
    | some n => simp [Steps.letters, digitsOf]; rfl
  · cases v.dev with
    | none => rfl
    | some n => simp [Steps.letters, digitsOf]; rfl
  · unfold buildLetters
    split
    · rfl
    · rw [toList_append, toList_intercalate, hparts]
      rfl

/-! ## Telling the letters apart -/

/-- Two texts that go on in the same way up to where a property of characters ends. -/
theorem span_inj {p : Char → Bool} {as as' bs bs' : List Char} (ha : ∀ c ∈ as, p c = true) (ha' : ∀ c ∈ as', p c = true)
    (hb : ∀ c ∈ bs.head?, p c = false) (hb' : ∀ c ∈ bs'.head?, p c = false) (h : as ++ bs = as' ++ bs') :
    as = as' ∧ bs = bs' := by
  have hspan : ∀ {as bs : List Char}, (∀ c ∈ as, p c = true) → (∀ c ∈ bs.head?, p c = false) →
      (as ++ bs).takeWhile p = as := by
    intro as bs ha hb
    rw [takeWhile_append_of_pos ha]
    cases bs with
    | nil => simp
    | cons b bs => simp [hb b rfl]
  have has : as = as' := by rw [← hspan ha hb, h, hspan ha' hb']
  exact ⟨has, append_cancel_left (has ▸ h)⟩

theorem digitsOf_inj {n m : Nat} (h : digitsOf n = digitsOf m) : n = m := by
  have hread (k : Nat) : ofDigitChars 10 (digitsOf k) 0 = k := ofDigitChars_ten_toDigits
  rw [← hread n, h, hread]

theorem digits_cons (n : Nat) : ∃ d ds, digitsOf n = d :: ds ∧ d.isDigit = true := by
  cases h : digitsOf n with
  | nil => exact absurd h toDigits_ne_nil
  | cons d ds => exact ⟨d, ds, rfl, isDigit_of_mem_digitsOf (h ▸ mem_cons_self)⟩

/-- No word has a digit or the sign of a local mark, and none but the first is empty. -/
structure Steps.Told (steps : Steps) : Prop where
  words : ∀ s ∈ steps, ∀ c ∈ s.1, c.isDigit = false ∧ c ≠ '+'
  later : ∀ s ∈ steps.tail, s.1 ≠ []

theorem Steps.Told.tail {s : List Char × Nat} {steps : Steps} (h : Told (s :: steps)) :
    Told steps ∧ ∀ c ∈ steps.letters.head?, c.isDigit = false := by
  refine ⟨⟨fun t ht => h.words t (mem_cons_of_mem _ ht), fun t ht => h.later t (mem_of_mem_tail ht)⟩, ?_⟩
  intro c hc
  cases steps with
  | nil => cases hc
  | cons t steps =>
    obtain ⟨d, ds, hd⟩ := exists_cons_of_ne_nil (h.later t mem_cons_self)
    refine (h.words t (by simp) c ?_).1
    simp only [letters, flatMap_cons, hd, cons_append, head?_cons, mem_some_iff] at hc
    rw [hd, ← hc]
    exact mem_cons_self

theorem Steps.letters_inj {p q : Steps} (hp : Told p) (hq : Told q) (h : p.letters = q.letters) : p = q := by
  have hcons (s : List Char × Nat) (p : Steps) : letters (s :: p) = s.1 ++ (digitsOf s.2 ++ letters p) :=
    append_assoc ..
  have hne (s : List Char × Nat) (p : Steps) : letters (s :: p) ≠ [] := by
    obtain ⟨d, ds, hds, -⟩ := digits_cons s.2
    simp [hcons, hds]
  have hdigit (n : Nat) (cs : List Char) : ∀ c ∈ (digitsOf n ++ cs).head?, (!c.isDigit) = false := by
    obtain ⟨d, ds, hds, hd⟩ := digits_cons n
    simp [hds, hd]
  induction p generalizing q with
  | nil =>
    cases q with
    | nil => rfl
    | cons t q => exact absurd h.symm (hne t q)
  | cons s p ih =>
    cases q with
    | nil => exact absurd h (hne s p)
    | cons t q =>
      rw [hcons, hcons] at h
      obtain ⟨hword, h⟩ := span_inj (fun c hc => by simp [hp.words s mem_cons_self c hc])
        (fun c hc => by simp [hq.words t mem_cons_self c hc]) (hdigit _ _) (hdigit _ _) h
      obtain ⟨hnumber, h⟩ := span_inj (fun _ => isDigit_of_mem_digitsOf) (fun _ => isDigit_of_mem_digitsOf)
        hp.tail.2 hq.tail.2 h
      rw [ih hp.tail.1 hq.tail.1 h, Prod.ext hword (digitsOf_inj hnumber)]

/-! ## Versions -/

/-- The words in front of the later numbers of a release. -/
def numberWords : List (List Char) := [['!'], ['.']]

/-- The words in front of the numbers of marks. -/
def markWords : List (List Char) := [['a'], ['b'], ['r', 'c'], ['.', 'p', 'o', 's', 't'], ['.', 'd', 'e', 'v']]

theorem Version.mem_markSteps {s : List Char × Nat} (h : s ∈ v.markSteps) : s.1 ∈ markWords := by
  simp only [markSteps, mem_append, mem_toList, map_eq_some_iff] at h
  rcases h with ⟨⟨stage, n⟩, -, rfl⟩ | ⟨n, -, rfl⟩ | ⟨n, -, rfl⟩
  · cases stage <;> simp [markWords, Stage.text]
  · simp [markWords]
  · simp [markWords]

theorem Version.Normal.numberSteps_cons (h : v.Normal) :
    ∃ n rest, v.numberSteps = ([], n) :: rest ∧ ∀ s ∈ rest, s.1 ∈ numberWords := by
  obtain ⟨n, ns, hns⟩ := exists_cons_of_ne_nil h.release
  have hdots : ∀ s ∈ ns.map ((['.'], ·) : Nat → List Char × Nat), s.1 ∈ numberWords := by
    simp [numberWords]
  unfold numberSteps
  rw [hns]
  split
  · exact ⟨n, _, rfl, hdots⟩
  · exact ⟨v.epoch, _, rfl, forall_mem_cons.2 ⟨by simp [numberWords], hdots⟩⟩

theorem Version.Normal.steps_told (h : v.Normal) : v.steps.Told := by
  obtain ⟨n, rest, hsteps, hrest⟩ := h.numberSteps_cons
  have hwords : ∀ w ∈ numberWords ++ markWords, w ≠ [] ∧ w.all (fun c => c.isDigit = false ∧ c ≠ '+') = true := by decide
  have hlater : ∀ s ∈ rest ++ v.markSteps, s.1 ∈ numberWords ++ markWords := by
    intro s hs
    rcases mem_append.1 hs with hs | hs
    · exact mem_append_left _ (hrest s hs)
    · exact mem_append_right _ (mem_markSteps hs)
  rw [steps, hsteps]
  refine ⟨forall_mem_cons.2 ⟨by simp, fun s hs => all_iff_forall_prop.1 (hwords _ (hlater s hs)).2⟩, fun s hs => ?_⟩
  exact (hwords _ (hlater s hs)).1

theorem Version.Normal.filter_steps (h : v.Normal) :
    v.steps.filter (fun s => markWords.contains s.1) = v.markSteps := by
  obtain ⟨n, rest, hsteps, hrest⟩ := h.numberSteps_cons
  have hno : ∀ w ∈ [] :: numberWords, w ∉ markWords := by decide
  have hnumbers : ∀ s ∈ v.numberSteps, ¬ markWords.contains s.1 = true := by
    rw [hsteps]
    simpa using ⟨hno [] mem_cons_self, fun w n hs => hno w (mem_cons_of_mem _ (hrest _ hs))⟩
  rw [steps, filter_append, filter_eq_nil_iff.2 hnumbers]
  exact filter_eq_self.2 fun s hs => contains_iff_mem.2 (mem_markSteps hs)

theorem Version.numbers_inj (hv : v.release ≠ []) (hw : w.release ≠ [])
    (h : v.numberSteps = w.numberSteps) : v.epoch = w.epoch ∧ v.release = w.release := by
  obtain ⟨n, ns, hns⟩ := exists_cons_of_ne_nil hv
  obtain ⟨m, ms, hms⟩ := exists_cons_of_ne_nil hw
  have hdots : Function.Injective ((['.'], ·) : Nat → List Char × Nat) := fun a b hab => (Prod.mk.inj hab).2
  -- only behind an epoch is there an exclamation mark
  have hmark (k : Nat) (ns : List Nat) (rest : Steps) : ns.map (['.'], ·) ≠ (['!'], k) :: rest := by
    cases ns <;> simp
  simp only [numberSteps, hns, hms, releaseSteps] at h ⊢
  split at h <;> split at h <;> simp only [cons.injEq] at h
  · simp_all [hdots.list_map.eq_iff]
  · exact absurd h.2 (hmark _ _ _)
  · exact absurd h.2.symm (hmark _ _ _)
  · simp_all [hdots.list_map.eq_iff]

theorem Version.marks_inj (h : v.markSteps = w.markSteps) : v.pre = w.pre ∧ v.post = w.post ∧ v.dev = w.dev := by
  have hread (v : Version) : v.markSteps.lookup ['.', 'p', 'o', 's', 't'] = v.post ∧
      v.markSteps.lookup ['.', 'd', 'e', 'v'] = v.dev := by
    obtain ⟨_, _, _ | ⟨_ | _ | _, _⟩, _ | _, _ | _, _⟩ := v <;> simp [markSteps, Stage.text, lookup_cons]
  have hpost : v.post = w.post := by rw [← (hread v).1, h, (hread w).1]
  have hdev : v.dev = w.dev := by rw [← (hread v).2, h, (hread w).2]
  refine ⟨?_, hpost, hdev⟩
  rw [markSteps, hpost, hdev] at h
  have hpre := append_cancel_right h
  revert hpre
  rcases v.pre with _ | ⟨_ | _ | _, n⟩ <;> rcases w.pre with _ | ⟨_ | _ | _, m⟩ <;> simp [Stage.text]

/-! ## Local marks -/

theorem LocalPart.Normal.letters {part : LocalPart} (h : part.Normal) :
    part.letters ≠ [] ∧ ∀ c ∈ part.letters, c.isAlphanum = true := by
  cases part with
  | number n =>
    exact ⟨toDigits_ne_nil, fun c hc => by simp [Char.isAlphanum, isDigit_of_mem_digitsOf hc]⟩
  | text s => exact ⟨h.1, fun c hc => (h.2.1 c hc).1⟩

theorem LocalPart.Normal.eq_of_letters {part part' : LocalPart} (h : part.Normal) (h' : part'.Normal)
    (heq : part.letters = part'.letters) : part = part' := by
  have hdigits (n : Nat) : (digitsOf n).all Char.isDigit = true := all_eq_true.2 fun c hc => isDigit_of_mem_digitsOf hc
  cases part with
  | number n =>
    cases part' with
    | number m => rw [digitsOf_inj heq]
    | text s => cases h'.2.2.symm.trans ((congrArg (List.all · Char.isDigit) heq).symm.trans (hdigits n))
  | text s =>
    cases part' with
    | number m => cases h.2.2.symm.trans ((congrArg (List.all · Char.isDigit) heq).trans (hdigits m))
    | text s' => rw [toList_inj.1 heq]

theorem build_inj {ps qs : List LocalPart} (hp : ∀ p ∈ ps, p.Normal) (hq : ∀ q ∈ qs, q.Normal)
    (h : buildLetters ps = buildLetters qs) : ps = qs := by
  have hdot (qs : List LocalPart) : ∀ c ∈ ((qs.map LocalPart.letters).flatMap ('.' :: ·)).head?,
      c.isAlphanum = false := by
    cases qs <;> simp
  have hwords : ∀ ps qs : List LocalPart, (∀ p ∈ ps, p.Normal) → (∀ q ∈ qs, q.Normal) →
      (ps.map LocalPart.letters).flatMap ('.' :: ·) = (qs.map LocalPart.letters).flatMap ('.' :: ·) → ps = qs := by
    intro ps
    induction ps with
    | nil => rintro (_ | ⟨q, qs⟩) <;> simp
    | cons p ps ih =>
      rintro (_ | ⟨q, qs⟩) hp hq h
      · simp at h
      · rw [forall_mem_cons] at hp hq
        obtain ⟨hword, h⟩ := span_inj hp.1.letters.2 hq.1.letters.2 (hdot ps) (hdot qs) (cons.inj h).2
        rw [hp.1.eq_of_letters hq.1 hword, ih qs hp.2 hq.2 h]
  refine hwords ps qs hp hq ?_
  cases ps <;> cases qs <;> simp_all [buildLetters, intercalate_cons]

theorem Version.Normal.eq_of_text (hv : v.Normal) (hw : w.Normal) (h : v.text = w.text) : v = w := by
  have hplain : ∀ {v : Version}, v.Normal → ∀ c ∈ v.steps.letters, (c != '+') = true := by
    intro v hv c hc
    obtain ⟨s, hs, hc⟩ := mem_flatMap.1 hc
    rcases mem_append.1 hc with hc | hc
    · simpa using (hv.steps_told.words s hs c hc).2
    · have hdigit := isDigit_of_mem_digitsOf hc
      rw [bne_iff_ne]
      rintro rfl
      cases hdigit
  have hmark (parts : List LocalPart) : ∀ c ∈ (buildLetters parts).head?, (c != '+') = false := by
    cases parts <;> simp [buildLetters]
  have hlist := congrArg String.toList h
  rw [hv.toList_text, hw.toList_text] at hlist
  obtain ⟨hletters, hbuild⟩ := span_inj (hplain hv) (hplain hw) (hmark _) (hmark _) hlist
  have hsteps := Steps.letters_inj hv.steps_told hw.steps_told hletters
  have hmarks : v.markSteps = w.markSteps := by rw [← hv.filter_steps, hsteps, hw.filter_steps]
  rw [steps, steps, hmarks] at hsteps
  obtain ⟨hepoch, hrelease⟩ := numbers_inj hv.release hw.release (append_cancel_right hsteps)
  obtain ⟨hpre, hpost, hdev⟩ := marks_inj hmarks
  have hparts := build_inj hv.build hw.build hbuild
  cases v
  cases w
  simp_all

/-! ## Order -/

theorem Version.lt_trans {u : Version} (h : u < v) (h' : v < w) : u < w := List.lt_trans h h'

theorem Version.key_ne_of_lt (h : v < w) : v.key ≠ w.key := by
  intro heq
  have hlt : v.key < w.key := h
  exact lt_irrefl w.key (heq ▸ hlt)

/-! ## What is read is normal -/

theorem toLower_toLower (c : Char) : c.toLower.toLower = c.toLower := by
  by_cases h : c.val ≥ 'A'.val ∧ c.val ≤ 'Z'.val
  · have hval : c.toLower.val = c.val + 32 := by
      rw [Char.toLower.eq_def c, dif_pos h]
      rfl
    rw [Char.toLower.eq_def c.toLower, dif_neg]
    rw [hval]
    intro h'
    simp only [UInt32.le_iff_toNat_le] at h h'
    simp at h h'
    omega
  · rw [Char.toLower.eq_def c, dif_neg h, Char.toLower.eq_def c, dif_neg h]

theorem digitsFront_suffix (cs : List Char) : (digitsFront cs).2 <:+ cs := dropWhile_suffix _

theorem skipSeparator_suffix (cs : List Char) : skipSeparator cs <:+ cs := by
  cases cs with
  | nil => exact suffix_rfl
  | cons c cs =>
    rw [skipSeparator]
    split
    · exact suffix_cons c cs
    · exact suffix_rfl

theorem markFront?_suffix {α : Type} {words : List (String × α)} {mark : α × Nat}
    (h : markFront? words cs = some (mark, rest)) : rest <:+ cs := by
  simp only [markFront?, wordFront?, bind_eq_bind, bind_eq_some_iff, map_eq_some_iff] at h
  obtain ⟨⟨a, after⟩, ⟨w, -, hw⟩, hrest⟩ := h
  obtain ⟨-, rfl⟩ := Prod.mk.inj hw
  obtain ⟨-, rfl⟩ := Prod.mk.inj (some.inj hrest)
  exact (digitsFront_suffix _).trans ((skipSeparator_suffix _).trans ((drop_suffix _ _).trans
    (skipSeparator_suffix cs)))

theorem postFront?_suffix {n : Nat} (h : postFront? cs = some (n, rest)) : rest <:+ cs := by
  have hmarked : (markFront? postWords cs).map (fun r => (r.1.2, r.2)) = some (n, rest) → rest <:+ cs := by
    intro h
    obtain ⟨⟨mark, after⟩, hmark, heq⟩ := map_eq_some_iff.1 h
    cases heq
    exact markFront?_suffix hmark
  unfold postFront? at h
  split at h
  · next cs =>
    split at h
    · exact hmarked h
    · next digits after _ heq =>
      cases h
      have hsuffix := digitsFront_suffix cs
      rw [heq] at hsuffix
      exact hsuffix.trans (suffix_cons _ _)
  · exact hmarked h

theorem releaseFront?_suffix {bound : Nat} {ns : List Nat}
    (h : releaseFront? bound cs = some (ns, rest)) : ns ≠ [] ∧ rest <:+ cs := by
  induction bound generalizing cs ns with
  | zero => cases h
  | succ bound ih =>
    have hsuffix := digitsFront_suffix cs
    unfold releaseFront? at h
    split at h
    · cases h
    · next heq =>
      rw [heq] at hsuffix
      split at h
      · next hmore =>
        cases h
        exact ⟨cons_ne_nil _ _, ((ih hmore).2.trans (suffix_cons _ _)).trans hsuffix⟩
      · cases h
        exact ⟨cons_ne_nil _ _, hsuffix⟩
    · next heq =>
      cases h
      rw [heq] at hsuffix
      exact ⟨cons_ne_nil _ _, hsuffix⟩

theorem epochFront_suffix (cs : List Char) : (epochFront cs).2 <:+ cs := by
  have hsuffix := digitsFront_suffix cs
  unfold epochFront
  split
  · next heq =>
    rw [heq] at hsuffix
    exact (suffix_cons _ _).trans hsuffix
  · exact suffix_rfl

theorem optional_suffix {α : Type} {front : List Char → Option (α × List Char)} (cs : List Char)
    (h : ∀ {a rest}, front cs = some (a, rest) → rest <:+ cs) : (optional front cs).2 <:+ cs := by
  unfold optional
  split
  · next heq => exact h heq
  · exact suffix_rfl

/-- The part of a local mark that a word stands for. -/
def LocalPart.ofWord (w : List Char) : LocalPart :=
  if w.all Char.isDigit then .number (numeral w) else .text (String.ofList w)

/-- A word of a local mark stands for a part in normal form. -/
theorem LocalPart.normal_ofWord {w : List Char} (hne : w ≠ [])
    (h : ∀ c ∈ w, c.isAlphanum = true ∧ c.toLower = c) : (LocalPart.ofWord w).Normal := by
  unfold ofWord
  split
  · trivial
  · next hdigits => simpa only [Normal, toList_ofList] using ⟨hne, h, Bool.eq_false_iff.2 hdigits⟩

theorem localParts?_normal {parts : List LocalPart} (h : localParts? cs = some parts)
    (hlower : ∀ c ∈ cs, c.toLower = c) : ∀ part ∈ parts, part.Normal := by
  unfold localParts? at h
  simp only at h
  split at h
  · next hcond =>
    cases h
    intro part hpart
    obtain ⟨w, hw, rfl⟩ := mem_map.1 hpart
    obtain ⟨hmem, hno⟩ := mem_filter.1 hw
    refine LocalPart.normal_ofWord (ne_nil_of_mem_splitBy hmem) fun c hc => ?_
    have hcs : c ∈ cs := by
      rw [← flatten_splitBy (fun a b => !isSeparator a && !isSeparator b) cs]
      exact mem_flatten.2 ⟨w, hmem, hc⟩
    have hsep : isSeparator c = false := by
      have := any_eq_false.1 (Bool.not_eq_true' _ ▸ hno) c hc
      simpa using this
    simp only [Bool.and_eq_true, List.all_eq_true] at hcond
    exact ⟨by simpa [hsep] using hcond.1.2 c hcs, hlower c hcs⟩
  · cases h

theorem Version.normal_of_parse? {text : String} (h : parse? text = some v) : v.Normal := by
  unfold parse? at h
  simp only [bind_eq_bind, bind_eq_some_iff] at h
  obtain ⟨⟨release, cs⟩, hrelease, h⟩ := h
  obtain ⟨hne, hcs⟩ := releaseFront?_suffix hrelease
  have hlower : ∀ c ∈ cs, c.toLower = c := by
    intro c hc
    have hmem := ((hcs.trans (epochFront_suffix _)).subset hc)
    have hletters : c ∈ (stripBlanks text.toList).map .toLower := by
      split at hmem
      · exact mem_of_mem_drop hmem
      · exact hmem
    obtain ⟨d, -, rfl⟩ := mem_map.1 hletters
    exact toLower_toLower d
  have hafter : (optional (markFront? devWords) (optional postFront?
      (optional (markFront? stageWords) cs).2).2).2 <:+ cs :=
    (optional_suffix _ markFront?_suffix).trans ((optional_suffix _ postFront?_suffix).trans
      (optional_suffix _ markFront?_suffix))
  split at h
  · cases h
    exact ⟨hne, fun _ hpart => absurd hpart not_mem_nil⟩
  · next rest heq =>
    obtain ⟨parts, hparts, h⟩ := bind_eq_some_iff.1 h
    cases h
    have hrest : rest <:+ cs := (heq ▸ suffix_cons '+' rest).trans hafter
    exact ⟨hne, localParts?_normal hparts fun c hc => hlower c (hrest.subset hc)⟩
  · cases h

end SmallScript.Packages
