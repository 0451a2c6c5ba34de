import SmallScript.Proofs.Session.Runs

/-!
# Constants keep their values

Programs that import built-in modules only are run one after the other. Then whatever is evaluated next has a log of all
it does, with each change of the heap ascribed to the node that makes it, and a constant loses its value in none of these
changes but those made by three kinds of statement: `constants_keep_values`.
-/

namespace SmallScript.Session

open Machine Evaluate Syntax
open Value (ScopeRef)

/-- Whatever programs without imports of files and packages have been run since the machine was new, the evaluation of a
tree without such imports has a log. The log ascribes each change of the heap to the node that makes it, its events are
exactly those which the evaluation passes, and each change that costs a constant its value is made by a loop over a
variable of that name, by an import of the name in the scope of the constant, or by a removal of the name there. -/
theorem constants_keep_values (world : World) (pending : String) (jobs : List Job)
    (hjobs : ∀ job ∈ jobs, job.Domestic) (m : Machine) (hm : m = (runJobs jobs ⟨.initial, world, pending⟩).2)
    (tree : Node) (htree : tree.Domestic) (s : ScopeRef) (fuel : Nat) :
    ∃ log, Course tree s m log (eval (fuel + 1) tree s m).2 ∧
      (∀ e m', Passes (fun o => @eval o (fuel + 1) tree s) m e m' ↔ (e, m') = (.enter tree s, m) ∨ .event e m' ∈ log) ∧
      ∀ n s' h h', .deed n s' h h' ∈ log → ∀ S x, h.Loses h' S x → n.Overwrites s' S x := by
  have hordinary : m.heap.Ordinary := by
    obtain ⟨_, -, htrail⟩ : ∃ log, JobsLogged jobs ⟨.initial, world, pending⟩ log ∧ Trail (hosting False True False)
        ⟨.initial, world, pending⟩ log (runJobs jobs ⟨.initial, world, pending⟩).2 :=
      runJobs_trail False.elim (fun _ => Heap.initial_ordinary) (fun _ => hjobs) False.elim
    rw [hm]
    exact (htrail.lawful trivial Heap.initial_ordinary).2
  have hready : Ready (hosting False True False) s m := ⟨False.elim, fun _ => hordinary, False.elim⟩
  obtain ⟨log, htrail, -, hlogged⟩ :=
    (EvaluatorConducts.all fuel).evalNode_leave hready ⟨False.elim, fun _ => htree, fun _ _ => trivial⟩
  have heval : ∀ o, @eval o (fuel + 1) tree s = o.notice (.enter tree s) >>= fun _ => do
      let v ← @evalNode o fuel tree s
      o.notice (.leave tree s v)
      return v := fun o => by simp only [eval]
  have hlawful := (htrail.lawful trivial hordinary).1
  refine ⟨log, ?_, fun e m' => ?_, fun n s' h h' hmem => (hlawful n s' h h' hmem).loses⟩
  · have hcourse := htrail.course
    rwa [heval]
  · have henter : Logged (fun o => @eval o (fuel + 1) tree s) m (.event (.enter tree s) m :: log) := by
      rw [funext heval]
      exact hlogged.told _
    rw [passes_iff_mem_log henter e m', List.mem_cons]
    refine or_congr_left ⟨fun heq => ?_, fun heq => ?_⟩
    · cases heq
      rfl
    · cases heq
      rfl

/-- A constant that one program declares is lost in the next one, where it is the variable of a loop and is removed. -/
theorem constants_keep_values_loop :
    ∃ m tree, m = (runJobs [.openScope false, .evaluate 0 "const k = true;"] plainMachine).2 ∧
      parse "for k in [null] \x7b del k \x7d" = .ok tree ∧ m.heap.Loses (eval 20 tree 0 m).2.heap 0 "k" ∧
      ∃ log, Course tree 0 m log (eval 20 tree 0 m).2 ∧
        (∀ e m', Passes (fun o => @eval o 20 tree 0) m e m' ↔ (e, m') = (.enter tree 0, m) ∨ .event e m' ∈ log) ∧
        ∀ n s' h h', .deed n s' h h' ∈ log → ∀ S x, h.Loses h' S x → n.Overwrites s' S x := by
  have hdeclared : tokenize "const k = true;" = .ok [⟨"const", .const, ⟨1, 5, 5⟩⟩, ⟨"k", .identifier, ⟨1, 7, 1⟩⟩,
      ⟨"=", .equals, ⟨1, 9, 1⟩⟩, ⟨"true", .identifier, ⟨1, 14, 4⟩⟩, ⟨";", .semicolon, ⟨1, 15, 1⟩⟩,
      ⟨"EOF", .eof, ⟨1, 15, 1⟩⟩] := by
    decide +kernel
  have hlooped : tokenize "for k in [null] \x7b del k \x7d" = .ok [⟨"for", .for_, ⟨1, 3, 3⟩⟩,
      ⟨"k", .identifier, ⟨1, 5, 1⟩⟩, ⟨"in", .in_, ⟨1, 8, 2⟩⟩, ⟨"[", .openBracket, ⟨1, 10, 1⟩⟩,
      ⟨"null", .identifier, ⟨1, 14, 4⟩⟩, ⟨"]", .closeBracket, ⟨1, 15, 1⟩⟩, ⟨"\x7b", .openBrace, ⟨1, 17, 1⟩⟩,
      ⟨"del", .del, ⟨1, 21, 3⟩⟩, ⟨"k", .identifier, ⟨1, 23, 1⟩⟩, ⟨"\x7d", .closeBrace, ⟨1, 25, 1⟩⟩,
      ⟨"EOF", .eof, ⟨1, 25, 1⟩⟩] := by
    decide +kernel
  have hdeclaration : parse "const k = true;" = .ok (.program .zero
      [.variable ⟨1, 5, 5⟩ true (.identifier ⟨1, 7, 1⟩ "k") (.identifier ⟨1, 14, 4⟩ "true")]) := by
    rw [parse, hdeclared]
    rfl
  have hloop : parse "for k in [null] \x7b del k \x7d" = .ok (.program .zero
      [.for ⟨1, 3, 3⟩ (.identifier ⟨1, 5, 1⟩ "k") (.array ⟨1, 10, 1⟩ [.identifier ⟨1, 14, 4⟩ "null"])
        [.del ⟨1, 21, 3⟩ (.identifier ⟨1, 23, 1⟩ "k")]]) := by
    rw [parse, hlooped]
    rfl
  have hjobs : ∀ job ∈ [Job.openScope false, .evaluate 0 "const k = true;"], job.Domestic := by
    refine List.forall_mem_cons.2 ⟨trivial, List.forall_mem_singleton.2 fun tree ht => ?_⟩
    rw [hdeclaration] at ht
    cases ht
    simp [Node.Domestic, AllDomestic]
  refine ⟨_, _, rfl, hloop, ⟨by decide +kernel, by decide +kernel, by decide +kernel⟩, ?_⟩
  exact constants_keep_values plainWorld "" _ hjobs _ rfl _ (by simp [Node.Domestic, AllDomestic]) 0 19

end SmallScript.Session
