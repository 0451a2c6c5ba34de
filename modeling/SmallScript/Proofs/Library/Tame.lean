import SmallScript.Proofs.Machine.Tame
import SmallScript.Proofs.Library.Sorting
import SmallScript.Library.Call

/-!
# What native functions do

Whatever its arguments are, a native function makes new arrays, objects and numbers, changes arrays in place and acts on
the surroundings. It reports most of what can go wrong. What it does not report is listed here: for each function the
kinds of failure that leave a call of it, `hazards`. The process is ended by `exit` only, and reading fails in `input`
only. Given ordinary values it yields an ordinary value. All this is `call_tame`.
-/

namespace SmallScript.Library

open Machine List Array
open Value (ScopeRef Native)
open Number (Numeric NumberFault OrderOp extremum)
open Syntax (Node Pos)
open World (FileFault FileCause FileStore)
open Data (Table)

/-- The kinds of failure, beside reported problems, that may come of a call. -/
def hazards : Native → List FailureKind
  | .input => [.endOfInput, .interrupt]
  | .exit => .exit :: wholeKinds
  -- integer parts: of arguments, or of the numbers in a text
  | .print | .str | .range | .int | .round | .floor | .ceil | .factorial => wholeKinds
  | .formatTime => .system :: wholeKinds
  -- domains and texts
  | .sin | .cos | .tan | .asin | .acos | .atan => wholeKinds
  | .log10 | .min | .max => [.value, .type]
  | .log => [.value, .type, .zeroDivision]
  | .sqrt => [.zeroDivision, .overflow]
  | .pow => [.zeroDivision, .overflow, .value]
  | .sum => [.overflow, .value]
  | .sort => [.type]
  | .bool | .abs | .splitString => [.value]
  -- missing arguments and elements
  | .len => [.index, .value]
  | .type | .pop | .shift => [.index]
  -- files that are none, or none that can be read
  | .readFile => [.isADirectory, .notADirectory, .unicodeDecode]
  | .writeFile | .appendFile | .deleteFile | .copyFile => [.isADirectory, .notADirectory]
  | .moveFile => [.isADirectory, .notADirectory, .system]
  | .listFiles | .fileSize => [.notADirectory]
  | .changeDir => [.fileNotFound, .notADirectory]
  | .array | .time | .sleep | .getTimezoneOffset | .fileExists | .getRequest | .postRequest | .putRequest
  | .deleteRequest | .urlEncode | .urlDecode | .random | .joinStrings | .replaceString | .stringContains | .push
  | .unshift | .getCwd | .getEnv | .exec | .jsonParse | .jsonStringify | .debugLog | .infoLog | .warnLog | .errorLog
  | .sha1 | .sha256 | .md5 => []

variable {O strict : Prop} {kinds : List FailureKind} {args : List Value} {v : Value}

attribute [local grind =] Value.Ordinary Value.nat Value.int Anything Problem.isStructural Failure.isStructural Failure.kind

attribute [local grind ←] Tame.andThen Tame.pure Tame.problem Tame.fail Tame.heapRead Tame.world Tame.modifyWorld
  Tame.printLine Tame.display Tame.inspect Tame.inspectAll Tame.number Tame.numberOf Tame.arrayOf

/-! ## Arguments -/

theorem first_tame (what : String) : Tame O strict kinds Anything (first args what) := by
  unfold first
  grind

theorem firstTwo_tame (ha : O → ∀ v ∈ args, v.Ordinary) (what : String) :
    Tame O strict kinds (fun p => p.2.Ordinary) (firstTwo args what) := by
  unfold firstTwo
  split
  · exact .pure_of fun hO => ha hO _ (.tail _ (.head _))
  · exact .problem rfl

theorem firstTwo_any (what : String) : Tame O strict kinds Anything (firstTwo args what) := by
  unfold firstTwo
  grind

theorem firstThree_tame (what : String) : Tame O strict kinds Anything (firstThree args what) := by
  unfold firstThree
  grind

theorem head_tame (h : FailureKind.index ∈ kinds) (args : List Value) : Tame O strict kinds Anything (head args) := by
  unfold head
  grind

theorem string_tame (what : String) (v : Value) : Tame O strict kinds Anything (string what v) := by
  unfold string
  grind

theorem number_tame (what : String) (v : Value) : Tame O strict kinds Anything (number what v) := by
  unfold number
  grind

theorem array_tame (what : String) (v : Value) : Tame O strict kinds Anything (array what v) := by
  unfold array
  grind

attribute [local grind ←] firstTwo_any string_tame

theorem oneString_tame (missing what : String) : Tame O strict kinds Anything (oneString args missing what) :=
  (first_tame missing).bind fun v _ => string_tame what v

theorem twoStrings_tame (missing what what' : String) :
    Tame O strict kinds Anything (twoStrings args missing what what') := by
  unfold twoStrings
  grind

theorem cannotWith_tame (h : FailureKind.value ∈ kinds) (action : String) (v : Value) :
    Tame O strict kinds Value.Ordinary (cannotWith action v) :=
  (Tame.inspect h v).bind fun _ _ => .problem rfl

theorem cannotWithAll_tame (h : FailureKind.value ∈ kinds) (action : String) (vs : List Value) :
    Tame O strict kinds Value.Ordinary (cannotWithAll action vs) :=
  (Tame.inspectAll h vs).bind fun _ _ => .problem rfl

attribute [local grind ←] first_tame firstThree_tame head_tame number_tame array_tame
  oneString_tame twoStrings_tame cannotWith_tame cannotWithAll_tame

/-! ## Functions of every program -/

theorem print_tame : Tame O strict wholeKinds Value.Ordinary (print args) := by
  refine (Tame.mapM .display args).bind fun texts _ => ?_
  exact (Tame.printLine _).bind fun _ _ => .pure trivial

theorem range_tame : Tame O strict wholeKinds Value.Ordinary (range args) := by
  have htrunc (n : Numeric) : Tame O strict wholeKinds (fun x => n.trunc = .ok x) (.ofNumber n.trunc) :=
    .ofNumber (trunc_faults n)
  have hints (is : List Int) : Tame O strict wholeKinds Value.Ordinary (.array (is.map .int)) :=
    .arrayOf fun _ => trivial
  unfold range
  split
  · exact (htrunc _).bind fun _ _ => hints _
  · exact (htrunc _).bind fun _ _ => (htrunc _).bind fun _ _ => hints _
  · refine (htrunc _).bind fun _ _ => (htrunc _).bind fun _ _ => (htrunc _).bind fun _ _ => ?_
    exact .ite (.fail rfl (by decide)) (hints _)
  · exact cannotWithAll_tame (by decide) _ _

theorem readLine_tame : Tame O strict [.endOfInput, .interrupt] Anything readLine := by
  unfold readLine
  grind

attribute [local grind ←] readLine_tame

theorem input_tame (scope : ScopeRef) : Tame O strict [.endOfInput, .interrupt] Value.Ordinary (input args scope) := by
  unfold input
  grind

theorem len_tame : Tame O strict [.index, .value] Value.Ordinary (len args) := by
  unfold len
  grind

theorem exit_tame (scope : ScopeRef) : Tame O strict (.exit :: wholeKinds) Value.Ordinary (exit args scope) := by
  have hcode (n : Numeric) : Tame O strict (.exit :: wholeKinds) (fun x => n.trunc = .ok x) (.ofNumber n.trunc) :=
    .ofNumber ((trunc_faults n).widen (by decide))
  refine Tame.heap.bind fun h _ => .ite ((Tame.problem (A := Anything) rfl).bind fun _ _ => ?_) ?_
  all_goals
    split
    · exact (hcode _).bind fun _ _ => .fail rfl (.head _)
    · exact .fail rfl (.head _)

theorem str_tame : Tame O strict wholeKinds Value.Ordinary (str args) := by
  unfold str
  grind

theorem readInteger_faults (text : String) : OnlyFaults (Among [.value]) (readInteger text) := by
  refine .mapError fun f _ => ?_
  cases f <;> exact (.head _)

theorem int_tame : Tame O strict wholeKinds Value.Ordinary (int args) := by
  unfold int
  split
  · exact .pure trivial
  · exact (Tame.ofNumber ((readInteger_faults _).widen (by decide))).bind fun _ _ => .pure trivial
  · exact (Tame.ofNumber (trunc_faults _)).bind fun _ _ => .pure trivial
  · exact (Tame.inspect (by decide) _).bind fun _ _ => .problem rfl

theorem bool_tame : Tame O strict [.value] Value.Ordinary (bool args) := by
  unfold bool
  grind

theorem toArray_tame (ha : O → ∀ v ∈ args, v.Ordinary) : Tame O strict kinds Value.Ordinary (toArray args) := by
  unfold toArray
  split
  · exact .arrayOf fun _ => trivial
  · exact Tame.heap.bind fun h hm => .array fun hO => ((hm hO).fields _).values
  · exact .pure trivial
  · exact .array ha

theorem type_tame : Tame O strict [.index] Value.Ordinary (type args) :=
  (head_tame (by decide) args).bind fun _ _ => .pure trivial

/-! ## Time -/

theorem sleep_tame : Tame O strict kinds Value.Ordinary (sleep args) := by
  unfold sleep
  grind

theorem formatTime_tame : Tame O strict (.system :: wholeKinds) Value.Ordinary (formatTime args) := by
  refine (first_tame _).bind fun v _ => ?_
  refine (number_tame _ v).bind fun x _ => ?_
  split
  · exact .pure trivial
  · next f _ =>
    refine .fail ?_ ?_
    · cases f <;> rfl
    · cases f <;> decide

theorem log_tame (level : String) (pos : Pos) : Tame O strict kinds Value.Ordinary (log level args pos) := by
  unfold log
  grind

/-! ## Files -/

/-- What is missing is reported. -/
theorem ofFile_tame {α : Type} {causes} {r : Except FileFault α} (hr : OnlyFaults (CausedBy causes) r)
    (h : ∀ c ∈ causes, c ≠ .notFound → causeKind c ∈ kinds) (kind name : String) :
    Tame O strict kinds Anything (ofFile kind name r) := by
  cases r with
  | ok a => exact .pure trivial
  | error f => exact .ite_of (fun _ => .problem rfl) fun hne => .fail rfl (h f.cause (hr f rfl) hne)

theorem store_tame : Tame O strict kinds Anything store := Tame.world.bind fun _ _ => .pure trivial

theorem setStore_tame (s : FileStore) : Tame O strict kinds Anything (setStore s) := .modifyWorld _

theorem textOf_tame (h : FailureKind.unicodeDecode ∈ kinds) (content : ByteArray) :
    Tame O strict kinds Anything (textOf content) := by
  unfold textOf
  grind

theorem readFile_tame :
    Tame O strict [.isADirectory, .notADirectory, .unicodeDecode] Value.Ordinary (readFile args) := by
  refine (oneString_tame _ _).bind fun name _ => ?_
  refine store_tame.bind fun s _ => ?_
  refine (ofFile_tame (read_faults s name) (by decide) _ _).bind fun content _ => ?_
  exact (textOf_tame (by decide) content).bind fun _ _ => .pure trivial

theorem replaceStore_tame {causes} {change : FileStore → Except FileFault FileStore}
    (hchange : ∀ s, OnlyFaults (CausedBy causes) (change s)) (h : ∀ c ∈ causes, c ≠ .notFound → causeKind c ∈ kinds)
    (kind name : String) :
    Tame O strict kinds Value.Ordinary (do
      setStore (← ofFile kind name (change (← store)))
      return .null : Action Value) := by
  refine store_tame.bind fun s _ => ?_
  refine (ofFile_tame (hchange s) h _ _).bind fun s' _ => ?_
  exact (setStore_tame s').bind fun _ _ => .pure trivial

theorem writeFile_tame : Tame O strict [.isADirectory, .notADirectory] Value.Ordinary (writeFile args) :=
  (twoStrings_tame _ _ _).bind fun p _ =>
    replaceStore_tame (fun s => write_faults s p.1 p.2.toUTF8) (by decide) _ _

theorem appendFile_tame : Tame O strict [.isADirectory, .notADirectory] Value.Ordinary (appendFile args) :=
  (twoStrings_tame _ _ _).bind fun p _ =>
    replaceStore_tame (fun s => append_faults s p.1 p.2.toUTF8) (by decide) _ _

theorem fileExists_tame : Tame O strict kinds Value.Ordinary (fileExists args) :=
  (oneString_tame _ _).bind fun _ _ => store_tame.bind fun _ _ => .pure trivial

theorem deleteFile_tame : Tame O strict [.isADirectory, .notADirectory] Value.Ordinary (deleteFile args) :=
  (oneString_tame _ _).bind fun name _ =>
    replaceStore_tame (fun s => delete_faults s (World.plainPath name)) (by decide) _ _

theorem copyFile_tame : Tame O strict [.isADirectory, .notADirectory] Value.Ordinary (copyFile args) := by
  refine (twoStrings_tame _ _ _).bind fun p _ => ?_
  refine store_tame.bind fun s _ => ?_
  refine (ofFile_tame (read_faults s _) (by decide) _ _).bind fun content _ => ?_
  exact replaceStore_tame (fun s => write_faults s (World.plainPath p.1) content) (by decide) _ _

theorem moveFile_tame : Tame O strict [.isADirectory, .notADirectory, .system] Value.Ordinary (moveFile args) :=
  (twoStrings_tame _ _ _).bind fun p _ =>
    replaceStore_tame (fun s => move_faults s (World.plainPath p.1) (World.plainPath p.2)) (by decide) _ _

theorem listFiles_tame : Tame O strict [.notADirectory] Value.Ordinary (listFiles args) := by
  refine (oneString_tame _ _).bind fun name _ => ?_
  refine store_tame.bind fun s _ => ?_
  exact (ofFile_tame (list_faults s _) (by decide) _ _).bind fun names _ => .arrayOf fun _ => trivial

theorem fileSize_tame : Tame O strict [.notADirectory] Value.Ordinary (fileSize args) := by
  refine (oneString_tame _ _).bind fun name _ => ?_
  refine store_tame.bind fun s _ => ?_
  exact (ofFile_tame (size_faults s _) (by decide) _ _).bind fun _ _ => .pure trivial

/-! ## The network and the process -/

theorem object_tame (key key' text : String) (k : Nat) :
    Tame O strict kinds Value.Ordinary (Action.object [(key, .str text), (key', .nat k)]) := by
  refine .object fun e he => ?_
  simp only [mem_cons, not_mem_nil, or_false] at he
  rcases he with rfl | rfl <;> exact trivial

attribute [local grind ←] object_tame

theorem request_tame (method url : String) (body : Option String) :
    Tame O strict kinds Value.Ordinary (request method url body) := by
  unfold request
  grind

theorem fetch_tame (method : String) : Tame O strict kinds Value.Ordinary (fetch method args) :=
  (oneString_tame _ _).bind fun url _ => request_tame method url none

theorem submit_tame (method : String) : Tame O strict kinds Value.Ordinary (submit method args) :=
  (twoStrings_tame _ _ _).bind fun p _ => request_tame method p.1 (some p.2)

theorem changeDir_tame : Tame O strict [.fileNotFound, .notADirectory] Value.Ordinary (changeDir args) := by
  refine (oneString_tame _ _).bind fun name _ => ?_
  refine store_tame.bind fun s _ => ?_
  split
  · exact (setStore_tame _).bind fun _ _ => .pure trivial
  · next f hf =>
    have hkinds : ∀ c ∈ pathCauses, causeKind c ∈ [.fileNotFound, .notADirectory] := by decide
    refine .bind (A := Anything) (.fail rfl ?_) fun _ _ => .pure trivial
    exact hkinds _ (enter_faults s name f hf)

theorem environmentVariable_tame : Tame O strict kinds Value.Ordinary (environmentVariable args) := by
  refine Tame.world.bind fun w _ => ?_
  split
  · refine .object fun e he => ?_
    obtain ⟨entry, -, rfl⟩ := mem_map.1 he
    exact trivial
  · exact .pure trivial
  · exact .problem rfl

theorem execute_tame : Tame O strict kinds Value.Ordinary (execute args) := by
  refine (oneString_tame _ _).bind fun line _ => ?_
  exact Tame.world.bind fun w _ => object_tame _ _ _ _

/-! ## Numbers

Sorting and the search for an extremum carry values along. That these stay ordinary is read off a link that pairs all
cells but scopes with themselves. -/

/-- Pairs each cell with itself, scopes apart. -/
def scopeless : Link := fun k i j => i = j ∧ k ≠ .scope

theorem ordinary_of_link {w} (h : ValueLink scopeless v w) : v.Ordinary := by
  cases h with
  | object h =>
    cases h with
    | record h => exact trivial
    | scope h => exact absurd rfl h.2
  | _ => exact trivial

theorem keyed_scopeless {vs : List Value} {items}
    (h : vs.mapM (fun e => e.num?.map (·, e)) = some items) : KeyedsLink scopeless items items := by
  induction vs generalizing items with
  | nil =>
    cases h
    exact .nil
  | cons v vs ih =>
    rw [mapM_cons] at h
    obtain ⟨item, hitem, h⟩ := Option.bind_eq_some_iff.1 h
    obtain ⟨rest, hrest, h⟩ := Option.bind_eq_some_iff.1 h
    cases h
    refine .cons ⟨rfl, ?_⟩ (ih hrest)
    cases v with
    | num x stamp =>
      cases hitem
      exact .num x ⟨rfl, CellKind.noConfusion⟩
    | _ => cases hitem

theorem sortKeyed_ordinary {items sorted} (hi : KeyedsLink scopeless items items)
    (hs : sortKeyed items = .ok sorted) : ∀ v ∈ sorted.map (·.2), v.Ordinary := by
  have hlink := sortKeyed_link hi
  rw [hs] at hlink
  cases hlink with
  | ok h =>
    intro v hv
    obtain ⟨item, hmem, rfl⟩ := mem_map.1 hv
    exact ordinary_of_link (forall₂_same.1 h item hmem).2

theorem extremum_ordinary (which : String) (op : OrderOp) {items item}
    (hi : KeyedsLink scopeless items items) (he : extremum which op (·.1) items = .ok item) : item.2.Ordinary := by
  have hlink := extremum_link which op hi
  rw [he] at hlink
  cases hlink with
  | ok h => exact ordinary_of_link h.2

theorem sqrt_tame : Tame O strict [.zeroDivision, .overflow] Value.Ordinary (sqrt args) := by
  refine (first_tame _).bind fun v _ => ?_
  exact (number_tame _ v).bind fun x _ => .numberOf (pow_faults _ _)

theorem round_tame : Tame O strict wholeKinds Value.Ordinary (round args) := by
  unfold round
  split
  · exact .pure trivial
  · exact .numberOf (round_faults _)
  · exact (Tame.ofNumber (trunc_faults _)).bind fun _ _ => .numberOf ((roundTo_faults _ _).widen (by decide))
  · exact cannotWith_tame (by decide) _ _

theorem numberElements?_tame (v : Value) :
    Tame O strict kinds (fun o => ∀ items ∈ o, KeyedsLink scopeless items items) (numberElements? v) := by
  unfold numberElements?
  split
  · exact Tame.heap.bind fun _ _ => .pure fun items hitems => keyed_scopeless hitems
  · exact .pure fun items hitems => nomatch hitems

theorem sum_tame : Tame O strict [.overflow, .value] Value.Ordinary (sum args) := by
  unfold sum
  split
  · exact .pure trivial
  · refine (numberElements?_tame _).bind fun ns _ => ?_
    split
    · exact .numberOf ((sumNums_faults _).widen (by decide))
    · exact cannotWith_tame (by decide) _ _

theorem extreme_tame (which : String) (op : OrderOp) :
    Tame O strict [.value, .type] Value.Ordinary (extreme which op args) := by
  unfold extreme
  split
  · exact .pure trivial
  · refine (numberElements?_tame _).bind fun ns hns => ?_
    split
    · refine (Tame.ofNumber (extremum_faults _ _ _ _)).bind fun item hitem => .pure_of fun hO => ?_
      exact extremum_ordinary which op (hns hO _ rfl) (hitem hO)
    · exact cannotWith_tame (by decide) _ _

theorem abs_tame : Tame O strict [.value] Value.Ordinary (abs args) := by
  unfold abs
  grind

theorem binaryMath_tame {f}
    (hf : ∀ a b, OnlyFaults (Among kinds) (f a b)) (h : FailureKind.value ∈ kinds) (name missing : String)
    : Tame O strict kinds Value.Ordinary (binaryMath name missing f args) := by
  unfold binaryMath
  grind

theorem unaryMath_tame {f} (hf : ∀ a, OnlyFaults (Among kinds) (f a)) (h : FailureKind.value ∈ kinds) (name : String) :
    Tame O strict kinds Value.Ordinary (unaryMath name f args) := by
  unfold unaryMath
  grind

/-! ## Strings -/

theorem splitString_tame : Tame O strict [.value] Value.Ordinary (splitString args) := by
  unfold splitString
  grind

theorem joinStrings_tame : Tame O strict kinds Value.Ordinary (joinStrings args) := by
  unfold joinStrings
  grind

theorem replaceString_tame : Tame O strict kinds Value.Ordinary (replaceString args) := by
  unfold replaceString
  grind

theorem ofString_tame (missing what : String) (g : String → String) :
    Tame O strict kinds Value.Ordinary (do return .str (g (← oneString args missing what))) :=
  (oneString_tame missing what).bind fun _ _ => .pure trivial

/-! ## Arrays -/

theorem push_tame (ha : O → ∀ v ∈ args, v.Ordinary) : Tame O strict kinds Value.Ordinary (push args) := by
  refine (firstTwo_tame ha _).bind fun p hp => ?_
  refine (array_tame _ p.1).bind fun ref _ => ?_
  have hpush : Tame O strict kinds Anything
      (.modifyHeap fun h => { h with arrays := h.arrays.modify ref (·.push p.2) }) :=
    .modifyArrays (fun _ => size_modify) fun h hO hm => Heap.forall_modify hm.arrays
      fun elements he v hv => (mem_push.1 hv).elim (he v) fun heq => heq ▸ hp hO
  exact hpush.bind fun _ _ => .pure trivial

theorem pop_tame : Tame O strict [.index] Value.Ordinary (pop args) := by
  refine (first_tame _).bind fun v _ => ?_
  refine (array_tame _ v).bind fun ref _ => ?_
  refine Tame.heap.bind fun h hm => ?_
  dsimp only
  split
  · exact .fail rfl (by decide)
  · next w hw =>
    refine (Tame.setElements _ fun hO v hv => ?_).bind fun _ _ =>
      .pure_of fun hO => (hm hO).elements ref w (mem_of_back? hw)
    rw [← mem_toList_iff] at hv
    exact (hm hO).elements ref v (mem_toList_iff.1 (mem_of_mem_dropLast hv))

theorem shift_tame : Tame O strict [.index] Value.Ordinary (shift args) := by
  refine (first_tame _).bind fun v _ => ?_
  refine (array_tame _ v).bind fun ref _ => ?_
  refine Tame.heap.bind fun h hm => ?_
  split
  · exact .fail rfl (by decide)
  · next w rest hw =>
    have hall (hO : O) : ∀ v ∈ w :: rest, v.Ordinary := fun v hv => (hm hO).elements ref v (mem_toList_iff.1 (hw ▸ hv))
    refine (Tame.setElements _ fun hO v hv => ?_).bind fun _ _ => .pure_of fun hO => hall hO w (.head _)
    exact hall hO v (.tail _ (List.mem_toArray.1 hv))

theorem unshift_tame (ha : O → ∀ v ∈ args, v.Ordinary) : Tame O strict kinds Value.Ordinary (unshift args) := by
  refine (firstTwo_tame ha _).bind fun p hp => ?_
  refine (array_tame _ p.1).bind fun ref _ => ?_
  refine Tame.heap.bind fun h hm => ?_
  refine (Tame.setElements _ fun hO v hv => ?_).bind fun _ _ => .pure trivial
  rcases mem_cons.1 (List.mem_toArray.1 hv) with rfl | hv
  · exact hp hO
  · exact (hm hO).elements ref v (mem_toList_iff.1 hv)

theorem takeRun_faults (less : Bool) (last : Keyed) (taken items : List Keyed) :
    OnlyFaults (Among [.type]) (takeRun less last taken items) := by
  induction items generalizing last taken with
  | nil => exact .ok _
  | cons x rest ih => exact (order_faults _ _ _).bind fun _ => .ite (ih _ _) (.pure _)

theorem firstRun_faults (items : List Keyed) : OnlyFaults (Among [.type]) (firstRun items) := by
  unfold firstRun
  split
  · exact .ok _
  · exact .ok _
  · refine (order_faults _ _ _).bind fun _ => .ite (takeRun_faults _ _ _ _) ?_
    exact (takeRun_faults _ _ _ _).bind fun _ => .pure _

theorem placeOf_faults (sorted : Array Keyed) (x : Keyed) (low high : Nat) :
    OnlyFaults (Among [.type]) (placeOf sorted x low high) := by
  fun_induction placeOf sorted x low high with
  | case1 low high hlt middle ihlow ihhigh => exact (order_faults _ _ _).bind fun _ => .ite ihlow ihhigh
  | case2 => exact .ok _

theorem sortKeyed_faults (items : List Keyed) : OnlyFaults (Among [.type]) (sortKeyed items) := by
  refine (firstRun_faults items).bind fun run => ?_
  refine .bind (.foldlM (fun sorted x => ?_) _ _) fun _ => .pure _
  exact (placeOf_faults _ _ _ _).bind fun _ => .pure _

theorem sort_tame : Tame O strict [.type] Value.Ordinary (sort args) := by
  refine (first_tame _).bind fun v _ => ?_
  refine (array_tame _ v).bind fun ref _ => ?_
  refine Tame.heap.bind fun h _ => ?_
  split
  · exact .problem rfl
  · next items hitems =>
    refine (Tame.ofNumber (sortKeyed_faults _)).bind fun sorted hsorted => ?_
    refine (Tame.setElements _ fun hO v hv => ?_).bind fun _ _ => .pure trivial
    exact sortKeyed_ordinary (keyed_scopeless hitems) (hsorted hO) v (List.mem_toArray.1 hv)

/-! ## Documents -/

mutual

theorem ofJson_tame (h : Heap) (hm : O → h.Ordinary) : ∀ d : Json,
    Relation.ReflTransGen (TameStep O) h (ofJson h d).2 ∧ (ofJson h d).1.Ordinary
  | .null | .bool _ | .num _ | .str _ => ⟨.refl, trivial⟩
  | .arr items => by
    obtain ⟨hpath, hvs⟩ := ofJsonItems_tame h hm items
    refine ⟨hpath.tail ⟨.array _, fun hO => ?_⟩, trivial⟩
    exact (ordinary_of_tame hpath hm hO).newArray fun v hv => hvs v (List.mem_toArray.1 hv)
  | .obj fields => by
    obtain ⟨hpath, hvs⟩ := ofJsonFields_tame h hm fields
    exact ⟨hpath.tail ⟨.object _ fun _ => .ofList _, fun hO => (ordinary_of_tame hpath hm hO).newObject (.ofList hvs) false⟩, trivial⟩

theorem ofJsonItems_tame (h : Heap) (hm : O → h.Ordinary) : ∀ ds : List Json,
    Relation.ReflTransGen (TameStep O) h (ofJsonItems h ds).2 ∧ ∀ v ∈ (ofJsonItems h ds).1, v.Ordinary
  | [] => ⟨.refl, fun _ hv => nomatch hv⟩
  | d :: ds => by
    obtain ⟨hpath, hv⟩ := ofJson_tame h hm d
    obtain ⟨hpath', hvs⟩ := ofJsonItems_tame _ (ordinary_of_tame hpath hm) ds
    exact ⟨hpath.trans hpath', List.forall_mem_cons.2 ⟨hv, hvs⟩⟩

theorem ofJsonFields_tame (h : Heap) (hm : O → h.Ordinary) : ∀ ds : List (String × Json),
    Relation.ReflTransGen (TameStep O) h (ofJsonFields h ds).2 ∧ ∀ e ∈ (ofJsonFields h ds).1, e.2.Ordinary
  | [] => ⟨.refl, fun _ he => nomatch he⟩
  | (_, d) :: ds => by
    obtain ⟨hpath, hv⟩ := ofJson_tame h hm d
    obtain ⟨hpath', hvs⟩ := ofJsonFields_tame _ (ordinary_of_tame hpath hm) ds
    exact ⟨hpath.trans hpath', List.forall_mem_cons.2 ⟨hv, hvs⟩⟩

end

theorem jsonParse_tame : Tame O strict kinds Value.Ordinary (jsonParse args) := by
  refine (oneString_tame _ _).bind fun text _ => ?_
  split
  · exact .problem rfl
  · next doc _ =>
    refine (Tame.onHeap (fun h hm => (ofJson_tame h hm doc).1)
      fun h _ hm => (ofJson_tame (O := True) h (fun _ => hm) doc).2).bind fun v hv => ?_
    refine Tame.heap.bind fun h _ => ?_
    split
    · exact (Tame.printLine _).bind fun _ _ => .pure_of hv
    · exact .problem rfl

theorem jsonStringify_tame : Tame O strict kinds Value.Ordinary (jsonStringify args) := by
  unfold jsonStringify
  grind

/-! ## All of them -/

theorem call_tame (f : Native) (ha : O → ∀ v ∈ args, v.Ordinary) (scope : ScopeRef) (pos : Pos) :
    Tame O strict (hazards f) Value.Ordinary (call f args scope pos) := by
  cases f with
  | print => exact print_tame
  | range => exact range_tame
  | input => exact input_tame scope
  | len => exact len_tame
  | exit => exact exit_tame scope
  | str => exact str_tame
  | int => exact int_tame
  | bool => exact bool_tame
  | array => exact toArray_tame ha
  | type => exact type_tame
  | time | random => exact Tame.world.bind fun _ _ => .number _
  | sleep => exact sleep_tame
  | formatTime => exact formatTime_tame
  | getTimezoneOffset => exact .pure trivial
  | readFile => exact readFile_tame
  | writeFile => exact writeFile_tame
  | appendFile => exact appendFile_tame
  | fileExists => exact fileExists_tame
  | deleteFile => exact deleteFile_tame
  | copyFile => exact copyFile_tame
  | moveFile => exact moveFile_tame
  | listFiles => exact listFiles_tame
  | fileSize => exact fileSize_tame
  | getRequest | deleteRequest => exact fetch_tame _
  | postRequest | putRequest => exact submit_tame _
  | urlEncode | urlDecode | sha1 | sha256 | md5 => exact ofString_tame _ _ _
  | sqrt => exact sqrt_tame
  | round => exact round_tame
  | sum => exact sum_tame
  | min | max => exact extreme_tame _ _
  | abs => exact abs_tame
  | pow => exact binaryMath_tame (fun a b => (pow_faults a b).widen (by decide)) (by decide) _ _
  | log => exact binaryMath_tame log_faults (by decide) _ _
  | log10 => exact unaryMath_tame log10_faults (by decide) _
  | sin | cos | tan => exact unaryMath_tame sin_faults (by decide) _
  | asin | acos | atan => exact unaryMath_tame asin_faults (by decide) _
  | floor => exact unaryMath_tame floor_faults (by decide) _
  | ceil => exact unaryMath_tame ceil_faults (by decide) _
  | factorial => exact unaryMath_tame factorial_faults (by decide) _
  | splitString => exact splitString_tame
  | joinStrings => exact joinStrings_tame
  | replaceString => exact replaceString_tame
  | stringContains => exact (twoStrings_tame _ _ _).bind fun _ _ => .pure trivial
  | push => exact push_tame ha
  | pop => exact pop_tame
  | shift => exact shift_tame
  | unshift => exact unshift_tame ha
  | sort => exact sort_tame
  | getCwd => exact store_tame.bind fun _ _ => .pure trivial
  | changeDir => exact changeDir_tame
  | getEnv => exact environmentVariable_tame
  | exec => exact execute_tame
  | jsonParse => exact jsonParse_tame
  | jsonStringify => exact jsonStringify_tame
  | debugLog | infoLog | warnLog | errorLog => exact log_tame _ pos

end SmallScript.Library
