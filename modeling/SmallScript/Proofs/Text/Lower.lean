import Mathlib.Data.List.Basic
import SmallScript.Text.Identifier
import SmallScript.Text.LowerCase

/-!
# Lower case twice

No small letter is the capital of another one. So the lower case of a text has no capitals left, and the
lower case of it is the same text, `lower_lower`.
-/

namespace SmallScript.Text

open List

/-! ## Runs of capitals -/

/-- The capital I with a dot, which has no small letter of its own, as a run. -/
def dottedRun : CaseRun := ⟨0x130, 0x130, 1, 0⟩

/-- The small letter of a capital of a run. -/
def CaseRun.small (r : CaseRun) (code : Nat) : Nat := (code + r.shift).toNat

/-- No small letter of the one run is a capital of the other: they lie on different sides, or the
capitals take every second place and the small letters stand between them. -/
def CaseRun.clears (r s : CaseRun) : Bool :=
  Nat.blt (r.small r.last) s.first || Nat.blt s.last (r.small r.first) ||
    (Nat.beq s.step 2 && (Nat.beq r.step 2 || Nat.beq r.first r.last) &&
      Nat.beq ((r.small r.first + s.first) % 2) 1)

/-- The small letters of a run are characters. -/
def CaseRun.valid (r : CaseRun) : Bool :=
  decide (0 ≤ r.first + r.shift) &&
    (Nat.blt (r.small r.last) 0xd800 ||
      (Nat.blt 0xdfff (r.small r.first) && Nat.blt (r.small r.last) 0x110000))

theorem caseRuns_clear : (caseRuns.all fun r => (dottedRun :: caseRuns).all r.clears) = true := by
  decide +kernel

theorem caseRuns_valid : caseRuns.all CaseRun.valid = true := by
  decide +kernel

theorem CaseRun.contains_iff {r : CaseRun} {code} :
    r.contains code = true ↔ r.first ≤ code ∧ code ≤ r.last ∧ (code - r.first) % r.step = 0 := by
  simp [contains, and_assoc]

theorem CaseRun.toNat_small {r : CaseRun} {code} (h : r.valid = true) (hc : r.contains code = true) :
    (Char.ofNat (r.small code)).toNat = r.small code := by
  obtain ⟨hfirst, hlast, -⟩ := contains_iff.1 hc
  simp only [valid, small, Bool.and_eq_true, Bool.or_eq_true, Nat.blt_eq] at h
  have hvalid : (r.small code).isValidChar := by
    simp only [small]
    omega
  rw [Char.ofNat, dif_pos hvalid]
  rfl

theorem CaseRun.not_contains_small {r s : CaseRun} {code} (hr : r.valid = true) (h : r.clears s = true)
    (hc : r.contains code = true) : s.contains (r.small code) = false := by
  by_contra hs
  have hpos : 0 ≤ r.first + r.shift := by
    simp only [valid, Bool.and_eq_true, decide_eq_true_eq] at hr
    exact hr.1
  obtain ⟨hfirst, hlast, hstep⟩ := contains_iff.1 hc
  obtain ⟨hfirst', hlast', hstep'⟩ := contains_iff.1 (Bool.not_eq_false _ ▸ hs)
  simp only [small] at hfirst' hlast' hstep'
  simp only [clears, small, Bool.and_eq_true, Bool.or_eq_true, Nat.blt_eq, Nat.beq_eq] at h
  rcases h with (h | h) | ⟨⟨htwo, hone⟩, hodd⟩
  · omega
  · omega
  · rw [htwo] at hstep'
    rcases hone with hone | hone
    · rw [hone] at hstep
      omega
    · omega

/-! ## Small characters -/

/-- A character that lower case leaves alone. -/
structure Small (c : Char) : Prop where
  ne_sigma : c ≠ 'Σ'
  ne_dotted : c ≠ 'İ'
  lowerChar_eq : lowerChar c = c

theorem Small.of_runs {c} (h : ∀ s ∈ dottedRun :: caseRuns, s.contains c.toNat = false) : Small c := by
  have hnone : caseRuns.find? (·.contains c.toNat) = none := find?_eq_none.2 fun s hs => by simp [h s (.tail _ hs)]
  refine ⟨?_, ?_, ?_⟩
  · rintro rfl
    revert hnone
    decide +kernel
  · rintro rfl
    exact absurd (h dottedRun (.head _)) (by decide)
  · rw [lowerChar, hnone]

theorem small_lowerChar {c} (hs : c ≠ 'Σ') (hd : c ≠ 'İ') : Small (lowerChar c) := by
  rw [lowerChar]
  split
  · next r hr =>
    have hmem := mem_of_find?_eq_some hr
    have hcontains := find?_some hr
    have hvalid := all_eq_true.1 caseRuns_valid r hmem
    refine .of_runs fun s hs => ?_
    rw [← CaseRun.small, CaseRun.toNat_small hvalid hcontains]
    exact CaseRun.not_contains_small hvalid (all_eq_true.1 (all_eq_true.1 caseRuns_clear r hmem) s hs) hcontains
  · next hnone => exact ⟨hs, hd, by rw [lowerChar, hnone]⟩

theorem small_of_mem_lowerFrom {before cs c} (h : c ∈ lowerFrom before cs) : Small c := by
  have hclear : ['ς', 'σ', 'i', .ofNat 0x307].all (fun c => (dottedRun :: caseRuns).all (!·.contains c.toNat)) =
      true := by
    decide +kernel
  have hfixed : ∀ c ∈ ['ς', 'σ', 'i', .ofNat 0x307], Small c := fun c hc =>
    .of_runs (by simpa using all_eq_true.1 (all_eq_true.1 hclear c hc))
  induction cs generalizing before with
  | nil => cases h
  | cons d ds ih =>
    simp only [lowerFrom, mem_append] at h
    rcases h with h | h
    · split at h
      · refine hfixed c ?_
        split at h <;> simp_all
      · split at h
        · exact hfixed c (by simp_all)
        · next hsigma hdotted =>
          rw [mem_singleton.1 h]
          exact small_lowerChar (by simpa using hsigma) (by simpa using hdotted)
    · exact ih h

theorem lowerFrom_small {before cs} (h : ∀ c ∈ cs, Small c) : lowerFrom before cs = cs := by
  induction cs generalizing before with
  | nil => rfl
  | cons c cs ih =>
    obtain ⟨hsigma, hdotted, hlower⟩ := h c (.head _)
    simp [lowerFrom, hsigma, hdotted, hlower, ih fun d hd => h d (.tail _ hd)]

/-- The lower case of a text has no capitals. -/
theorem lower_lower (s : String) : lower (lower s) = lower s := by
  rw [lower, lower, String.toList_ofList, lowerFrom_small fun c => small_of_mem_lowerFrom]

/-! ## Identifiers -/

theorem slash_notMem_of_isIdentifier {cs} (h : isIdentifier cs = true) : '/' ∉ cs := by
  have hslash : isIdentifierStart '/' = false ∧ isIdentifierPart '/' = false := by decide +kernel
  intro hmem
  cases cs with
  | nil => cases h
  | cons c cs =>
    simp only [isIdentifier, Bool.and_eq_true, all_eq_true] at h
    rcases mem_cons.1 hmem with rfl | hmem
    · simp [hslash.1] at h
    · have := h.2 _ hmem
      simp [hslash.2] at this

end SmallScript.Text
