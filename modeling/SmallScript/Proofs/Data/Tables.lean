import Mathlib.Data.List.Basic
import SmallScript.Data.Table

/-!
# Tables

What holds of all values of a table is kept by the changes of tables, and each change is known by the names that it
sets or removes.
-/

namespace SmallScript.Data.Table

open List

variable {α : Type} {P : α → Prop} {t : Table α} {name : String} {v : α} {es : List (String × α)}

theorem mem_of_lookup (h : es.lookup name = some v) : (name, v) ∈ es := by
  obtain ⟨before, after, rfl, -⟩ := lookup_eq_some_iff.1 h
  simp

theorem lookup_of_mem (hn : (es.map (·.1)).Nodup) (h : (name, v) ∈ es) : es.lookup name = some v := by
  induction es with
  | nil => cases h
  | cons e es ih =>
    rw [map_cons, nodup_cons] at hn
    rcases mem_cons.1 h with rfl | h
    · exact lookup_cons_self
    · have hne : (name == e.1) = false := beq_false_of_ne fun heq => hn.1 (heq ▸ mem_map_of_mem h)
      rw [lookup_cons, hne, ih hn.2 h]

/-- All values of the table have the property. -/
def All (P : α → Prop) (t : Table α) : Prop := ∀ e ∈ t.entries, P e.2

theorem All.empty : All P (Table.empty : Table α) := fun _ he => nomatch he

theorem All.get? (h : t.All P) (hv : t.get? name = some v) : P v := h (name, v) (mem_of_lookup hv)

theorem mem_insertEntry {e} (he : e ∈ insertEntry name v es) : e = (name, v) ∨ e ∈ es := by
  induction es with
  | nil => exact .inl (mem_singleton.1 he)
  | cons e' es ih =>
    rw [insertEntry] at he
    split at he
    · exact (mem_cons.1 he).imp_right (.tail _)
    · rcases mem_cons.1 he with rfl | he
      · exact .inr (.head _)
      · exact (ih he).imp_right (.tail _)

theorem All.insert (h : t.All P) (name : String) (hv : P v) : (t.insert name v).All P := by
  intro e he
  rcases mem_insertEntry he with rfl | he
  · exact hv
  · exact h e he

theorem All.insertAll (h : t.All P) (hes : ∀ e ∈ es, P e.2) : (t.insertAll es).All P := by
  induction es generalizing t with
  | nil => exact h
  | cons e es ih =>
    rw [forall_mem_cons] at hes
    exact ih (h.insert e.1 hes.1) hes.2

theorem All.ofList (hes : ∀ e ∈ es, P e.2) : (ofList es).All P := All.empty.insertAll hes

theorem All.erase (h : t.All P) (name : String) : (t.erase name).All P := fun e he => h e (mem_of_mem_filter he)

theorem All.values (h : t.All P) : ∀ v ∈ t.values, P v := by
  intro v hv
  obtain ⟨e, he, rfl⟩ := mem_map.1 hv
  exact h e he

/-! ## Names of a table that has changed -/

theorem lookup_insertEntry (name x : String) (v : α) (es : List (String × α)) :
    (insertEntry name v es).lookup x = if x = name then some v else es.lookup x := by
  induction es with
  | nil =>
    rw [insertEntry, lookup_cons]
    by_cases hx : x = name
    · simp [hx]
    · rw [beq_false_of_ne hx, if_neg hx]
  | cons e es ih =>
    rw [insertEntry]
    split
    · next he =>
      have he' : e.1 = name := beq_iff_eq.1 he
      rw [lookup_cons, lookup_cons, he']
      by_cases hx : x = name
      · simp [hx]
      · rw [beq_false_of_ne hx, if_neg hx]
    · next he =>
      rw [lookup_cons, lookup_cons, ih]
      by_cases hx : x = name
      · have hne : (x == e.1) = false := by
          rw [beq_eq_false_iff_ne]
          rintro rfl
          exact he (beq_iff_eq.2 hx)
        simp [hx, hx ▸ hne]
      · simp [hx]

/-- A new name comes last. -/
theorem insertEntry_of_not_mem (h : name ∉ es.map (·.1)) : insertEntry name v es = es ++ [(name, v)] := by
  induction es with
  | nil => rfl
  | cons e es ih =>
    rw [map_cons, mem_cons, not_or] at h
    rw [insertEntry, if_neg fun he => h.1 (beq_iff_eq.1 he).symm, ih h.2, cons_append]

/-- A name that is there keeps its place. -/
theorem names_insertEntry_of_mem (h : name ∈ es.map (·.1)) : (insertEntry name v es).map (·.1) = es.map (·.1) := by
  induction es with
  | nil => cases h
  | cons e es ih =>
    rw [insertEntry]
    split
    · next he => rw [map_cons, map_cons, beq_iff_eq.1 he]
    · next he =>
      rw [map_cons, mem_cons] at h
      rw [map_cons, map_cons, ih (h.resolve_left fun hn => he (beq_iff_eq.2 hn.symm))]

theorem mem_names_insertEntry {x} : x ∈ (insertEntry name v es).map (·.1) ↔ x = name ∨ x ∈ es.map (·.1) := by
  by_cases h : name ∈ es.map (·.1)
  · rw [names_insertEntry_of_mem h]
    refine ⟨.inr, ?_⟩
    rintro (rfl | hx)
    · exact h
    · exact hx
  · rw [insertEntry_of_not_mem h]
    simp [or_comm]

theorem nodup_insertEntry (h : (es.map (·.1)).Nodup) : ((insertEntry name v es).map (·.1)).Nodup := by
  by_cases hmem : name ∈ es.map (·.1)
  · rwa [names_insertEntry_of_mem hmem]
  · rw [insertEntry_of_not_mem hmem, map_append, nodup_append]
    refine ⟨h, by simp, fun x hx y hy hxy => hmem ?_⟩
    cases mem_singleton.1 hy
    subst hxy
    exact hx

/-- No name is there twice. -/
def Distinct (t : Table α) : Prop := t.keys.Nodup

theorem Distinct.empty : (empty : Table α).Distinct := nodup_nil

theorem Distinct.insert (h : t.Distinct) (name : String) (v : α) : (t.insert name v).Distinct := nodup_insertEntry h

theorem Distinct.insertAll (h : t.Distinct) (es : List (String × α)) : (t.insertAll es).Distinct := by
  induction es generalizing t with
  | nil => exact h
  | cons e es ih => exact ih (h.insert e.1 e.2)

theorem Distinct.ofList (es : List (String × α)) : (ofList es).Distinct := Distinct.empty.insertAll es

theorem Distinct.erase (h : t.Distinct) (name : String) : (t.erase name).Distinct := h.sublist (filter_sublist.map _)

/-- No name is there twice, and on a condition all values have the property. -/
structure Sound (O : Prop) (P : α → Prop) (t : Table α) : Prop where
  distinct : t.Distinct
  all : O → t.All P

theorem Sound.empty {O : Prop} : Sound O P (Table.empty : Table α) := ⟨.empty, fun _ => .empty⟩

theorem Sound.insert {O : Prop} (h : t.Sound O P) (name : String) (hv : O → P v) : (t.insert name v).Sound O P :=
  ⟨h.distinct.insert name v, fun hO => (h.all hO).insert name (hv hO)⟩

/-- Nothing changes when a name gets the value that it has. -/
theorem insertEntry_of_lookup (h : es.lookup name = some v) : insertEntry name v es = es := by
  induction es with
  | nil => cases h
  | cons e es ih =>
    rw [lookup_cons] at h
    rw [insertEntry]
    split
    · next he =>
      rw [show (name == e.1) = true by rw [beq_iff_eq, beq_iff_eq.1 he]] at h
      cases h
      rw [← beq_iff_eq.1 he]
    · next he =>
      rw [show (name == e.1) = false by rw [beq_eq_false_iff_ne]; exact fun hn => he (beq_iff_eq.2 hn.symm)] at h
      rw [ih h]

theorem get?_insert (t : Table α) (name x : String) (v : α) :
    (t.insert name v).get? x = if x = name then some v else t.get? x := lookup_insertEntry name x v t.entries

theorem lookup_filter_ne {x} (hx : x ≠ name) (es : List (String × α)) :
    (es.filter (·.1 != name)).lookup x = es.lookup x := by
  induction es with
  | nil => rfl
  | cons e es ih =>
    rw [filter_cons]
    split
    · rw [lookup_cons, lookup_cons, ih]
    · next he =>
      have he' : e.1 = name := by simpa using he
      have hne : (x == e.1) = false := by rw [beq_eq_false_iff_ne, he']; exact hx
      rw [lookup_cons, hne, ih]

theorem get?_erase_ne (t : Table α) {x} (hx : x ≠ name) : (t.erase name).get? x = t.get? x :=
  lookup_filter_ne hx t.entries

theorem contains_iff : t.contains name = true ↔ ∃ v, t.get? name = some v := by
  rw [contains, Option.isSome_iff_exists]

theorem contains_iff_mem : t.contains name = true ↔ ∃ e ∈ t.entries, e.1 = name := by
  rw [contains_iff]
  constructor
  · rintro ⟨v, hv⟩
    exact ⟨(name, v), mem_of_lookup hv, rfl⟩
  · rintro ⟨e, he, rfl⟩
    cases hv : t.get? e.1 with
    | some v => exact ⟨v, rfl⟩
    | none => exact absurd rfl (bne_iff_ne.1 (lookup_eq_none_iff.1 hv e he))

theorem contains_erase {x} : (t.erase name).contains x = true ↔ x ≠ name ∧ t.contains x = true := by
  simp only [contains_iff_mem, erase, mem_filter, bne_iff_ne]
  constructor
  · rintro ⟨e, ⟨he, hne⟩, rfl⟩
    exact ⟨hne, e, he, rfl⟩
  · rintro ⟨hne, e, he, rfl⟩
    exact ⟨e, ⟨he, hne⟩, rfl⟩

/-- Nothing changes when a name is removed that has no value. -/
theorem erase_of_not_contains (h : t.contains name = false) : t.erase name = t := by
  have hall : t.entries.filter (·.1 != name) = t.entries := by
    refine filter_eq_self.2 fun e he => bne_iff_ne.2 fun heq => ?_
    rw [contains_iff_mem.2 ⟨e, he, heq⟩] at h
    cases h
  rw [erase, hall]

theorem erase_insert (h : t.contains name = false) : (t.insert name v).erase name = t := by
  have hnew : name ∉ t.entries.map (·.1) := fun hmem => by
    obtain ⟨e, he, heq⟩ := mem_map.1 hmem
    rw [contains_iff_mem.2 ⟨e, he, heq⟩] at h
    cases h
  have hentries : (t.insert name v).entries = t.entries ++ [(name, v)] := insertEntry_of_not_mem hnew
  have hlast : [(name, v)].filter (·.1 != name) = [] := by simp
  rw [erase, hentries, filter_append, hlast, append_nil]
  exact erase_of_not_contains h

/-! ## Several names are removed -/

section
variable {β : Type} {f : β → String} {xs : List β}

theorem contains_foldl_erase : (xs.foldl (fun t x => t.erase (f x)) t).contains name = true ↔
    (∀ x ∈ xs, name ≠ f x) ∧ t.contains name = true := by
  induction xs generalizing t with
  | nil => simp
  | cons x xs ih =>
    rw [foldl_cons, ih, contains_erase, forall_mem_cons]
    constructor
    · rintro ⟨hrest, hx, ht⟩
      exact ⟨⟨hx, hrest⟩, ht⟩
    · rintro ⟨⟨hx, hrest⟩, ht⟩
      exact ⟨hrest, hx, ht⟩

theorem get?_foldl_erase (h : ∀ x ∈ xs, name ≠ f x) :
    (xs.foldl (fun t x => t.erase (f x)) t).get? name = t.get? name := by
  induction xs generalizing t with
  | nil => rfl
  | cons x xs ih =>
    rw [forall_mem_cons] at h
    rw [foldl_cons, ih h.2, get?_erase_ne t h.1]

theorem foldl_erase_of_not_contains (h : ∀ x ∈ xs, t.contains (f x) = false) :
    xs.foldl (fun t x => t.erase (f x)) t = t := by
  induction xs with
  | nil => rfl
  | cons x xs ih =>
    rw [forall_mem_cons] at h
    rw [foldl_cons, erase_of_not_contains h.1, ih h.2]

end

end SmallScript.Data.Table
