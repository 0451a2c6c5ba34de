import SmallScript.Ide.Server
import SmallScript.Proofs.Session.Sandbox

/-!
# The end of sessions

Before a request is answered, the sessions are walked through for those whose time is over. The walk does not survive
its first removal: the request fails, and the session it has met is gone. So a server that has `n` sessions to remove
fails the next `n` requests, whoever sends them, and only then holds exactly the sessions that are left.
-/

namespace SmallScript.Ide

open Machine Session List

namespace Server

variable {s : Server} {e : Shared} {before after : List Shared}

/-- The time of a session is over. -/
def lapsed (s : Server) (e : Shared) : Bool := e.expiry < s.machine.world.clock

/-- The sessions whose time is not over, in their order. -/
def live (s : Server) : List Shared := s.sessions.filter fun e => !s.lapsed e

/-- The answers to requests that come one after another. -/
def serveAll (s : Server) : List Request → List (Except Signal Reply) × Server
  | [] => ([], s)
  | r :: rs =>
    let (answer, s) := s.serve r
    let (answers, s) := s.serveAll rs
    (answer :: answers, s)

/-! ## One request -/

/-- With names that differ, dropping a session leaves all others in their places. -/
theorem drop_of_split (hs : s.sessions = before ++ e :: after) (hn : (s.sessions.map Shared.name).Nodup) :
    s.drop e.name = { s with sessions := before ++ after } := by
  rw [hs, map_append] at hn
  have hname := (nodup_cons.1 (nodup_middle.1 hn)).1
  have hother : ∀ x ∈ before ++ after, (x.name != e.name) = true := by
    intro x hx
    refine bne_iff_ne.2 fun h => hname ?_
    rw [← map_append, ← h]
    exact mem_map_of_mem hx
  rw [drop, hs, filter_append, filter_cons, if_neg (by simp), ← filter_append, filter_eq_self.2 hother]

theorem sweep_of_live (h : ∀ e ∈ s.sessions, s.lapsed e = false) : s.sweep = (.ok (), s) := by
  have hnone : s.expired? = none := find?_eq_none.2 (by simpa [lapsed] using h)
  rw [sweep, hnone]

/-- Nothing is done if no session is over; otherwise the first of them is removed, and no request is answered. -/
theorem sweep_cases (hn : (s.sessions.map Shared.name).Nodup) :
    (∀ e ∈ s.sessions, s.lapsed e = false) ∧ s.sweep = (.ok (), s) ∨
      ∃ before e after, s.sessions = before ++ e :: after ∧ (∀ x ∈ before, s.lapsed x = false) ∧ s.lapsed e = true ∧
        s.sweep = (.error .changedOnTheWay, { s with sessions := before ++ after }) := by
  cases h : s.expired? with
  | none =>
    have hlive : ∀ e ∈ s.sessions, s.lapsed e = false := by simpa [lapsed] using find?_eq_none.1 h
    exact .inl ⟨hlive, sweep_of_live hlive⟩
  | some e =>
    obtain ⟨he, before, after, hs, hb⟩ := find?_eq_some_iff_append.1 h
    refine .inr ⟨before, e, after, hs, (by simpa [lapsed] using hb), he, ?_⟩
    rw [sweep, h, ← drop_of_split hs hn]

/-! ## Many requests -/

/-- As many requests fail as there are sessions to remove; then exactly the live ones are left. -/
theorem serveAll_of_over (requests : List Request) (s : Server) (hn : (s.sessions.map Shared.name).Nodup)
    (hlen : requests.length = s.sessions.countP s.lapsed) :
    s.serveAll requests =
      (requests.map fun _ => .error (.failure .changedOnTheWay), { s with sessions := s.live }) := by
  induction requests generalizing s with
  | nil =>
    have hlive : s.live = s.sessions := filter_eq_self.2 (by simpa using countP_eq_zero.1 hlen.symm)
    rw [hlive]
    rfl
  | cons r rs ih =>
    rcases sweep_cases hn with ⟨hlive, -⟩ | ⟨before, e, after, hs, -, he, hsweep⟩
    · have hzero : s.sessions.countP s.lapsed = 0 := countP_eq_zero.2 (by simpa using hlive)
      rw [hzero] at hlen
      cases hlen
    · -- the request meets the first of them, and the rest of the requests the others
      have hsub : (before ++ after).Sublist s.sessions := by
        rw [hs]
        exact (Sublist.refl before).append (sublist_cons_self e after)
      have hrest := ih { s with sessions := before ++ after } (hn.sublist (hsub.map _)) (by
        rw [hs, countP_append, countP_cons_of_pos he, length_cons] at hlen
        show rs.length = (before ++ after).countP s.lapsed
        rw [countP_append]
        omega)
      have hlive : live { s with sessions := before ++ after } = s.live := by
        rw [live, live, hs, filter_append, filter_append, filter_cons, he]
        rfl
      have hserve : s.serve r = (.error (.failure .changedOnTheWay), { s with sessions := before ++ after }) := by
        rw [serve, hsweep]
      rw [hlive] at hrest
      rw [serveAll, hserve]
      dsimp only
      rw [hrest, map_cons]

theorem sweep_live (s : Server) :
    ({ s with sessions := s.live } : Server).sweep = (.ok (), { s with sessions := s.live }) :=
  sweep_of_live fun e he => by
    have := (mem_filter.1 he).2
    rwa [Bool.not_eq_true'] at this

end Server

/-- For every map of sessions and every clock: what is done before a request fails exactly if the time of some session
is over, and then removes the first such session and nothing else; otherwise it changes nothing. All such sessions are
gone after as many failed requests as there are of them, with the others as they were, and what is done before the next
request completes. -/
theorem expired_sessions_fail_one_request_each (s : Server) (hn : (s.sessions.map Shared.name).Nodup) :
    ((∀ e ∈ s.sessions, s.lapsed e = false) ∧ s.sweep = (.ok (), s) ∨
      ∃ before e after, s.sessions = before ++ e :: after ∧ (∀ x ∈ before, s.lapsed x = false) ∧ s.lapsed e = true ∧
        s.sweep = (.error .changedOnTheWay, { s with sessions := before ++ after })) ∧
    ∀ requests : List Request, requests.length = s.sessions.countP s.lapsed → s.serveAll requests =
        (requests.map fun _ => .error (.failure .changedOnTheWay), { s with sessions := s.live }) ∧
      (s.serveAll requests).2.sweep = (.ok (), (s.serveAll requests).2) := by
  refine ⟨Server.sweep_cases hn, fun requests hlen => ?_⟩
  have hall := Server.serveAll_of_over requests s hn hlen
  refine ⟨hall, ?_⟩
  rw [hall]
  exact s.sweep_live

/-- A server with a session that is over, one that is not, and another that is over. -/
def threeSessions : Server :=
  ⟨{ plainMachine with world := { plainMachine.world with clock := 601.0 } },
    [⟨"env0", 0, 600.0⟩, ⟨"env1", 0, 700.0⟩, ⟨"env2", 0, 600.5⟩], 3, false⟩

theorem threeSessions_fail_two_requests : let r : Request := ⟨"POST", "/repl", [], none⟩
    (threeSessions.sessions.map Shared.name).Nodup ∧
      (threeSessions.serveAll [r, r]).2.sessions.map Shared.name = ["env1"] := by
  refine ⟨by decide, ?_⟩
  rw [((expired_sessions_fail_one_request_each threeSessions (by decide)).2 _ (by decide +kernel)).1]
  decide +kernel

/-- A session made at the start has ended when 601 seconds are over, and the request that comes then fails. -/
theorem request_after_expiry_fails : ∃ s : Server, s = ((Server.start plainMachine false).open.2.advance 601.0) ∧
      (s.sessions.map Shared.name).Nodup ∧ s.sweep.1 ≠ .ok () ∧ s.sweep.2.sessions.map Shared.name = [] := by
  refine ⟨_, rfl, ?_, ?_, ?_⟩ <;> decide +kernel

end SmallScript.Ide
