import Beacon.Proofs.Queue.Playing
import Beacon.Server

/-!
# Serving connections

What a connection asks for is settled by its lines alone: the requests before the first line that
cannot be played, and the complaint about that line (`Connection.requests` and
`Connection.complaint?`). A server on an idle queue plays just these requests, each whole and in
their order, and then goes on with the next connection (`Server.run_cons`).
-/

namespace Beacon

/-! ## What a connection asks for -/

namespace Connection

/-- The requests of a connection, as text and effect, up to the first line that cannot be played. -/
def requests : Connection → List (String × Effect)
  | [] => []
  | line :: rest =>
    match Request.ofLine line with
    | .blank => requests rest
    | .play text e => (text, e) :: requests rest
    | _ => []

/-- What is said about the first line that cannot be played, if there is one. -/
def complaint? : Connection → Option String
  | [] => none
  | line :: rest =>
    match Request.ofLine line with
    | .blank | .play .. => complaint? rest
    | .unreadable => some "Unable to read from connection: stream did not contain valid UTF-8"
    | .refused e => some ("Unable to process effect: " ++ e.message)

/-- Each request takes a line. -/
theorem length_requests_le (c : Connection) : (requests c).length ≤ c.length := by
  induction c with
  | nil => simp [requests]
  | cons line rest ih =>
    unfold requests
    split <;> simp only [List.length_cons, List.length_nil] <;> omega

/-- The panel after the complaint about a connection, if there is one. -/
def complain (c : Connection) (panel : Panel) : Panel :=
  c.complaint?.elim panel (panel.note .warn)

/-- A connection that asks for nothing more is read to its end. -/
theorem await_eq_none {c : Connection} (h : c.requests = []) (preempt : Bool) (panel : Panel) :
    c.await preempt panel = (none, c.complain panel) := by
  induction c with
  | nil => rfl
  | cons line rest ih =>
    unfold complain at ih ⊢
    cases hline : Request.ofLine line with
    | blank =>
      simp only [requests, hline] at h
      simpa only [await, complaint?, hline] using ih h
    | play text e => simp [requests, hline] at h
    | unreadable | refused => simp [await, complaint?, hline]

end Connection

/-- The ticket of a request that is read, and the panel after it: a preempting request draws an
epoch for itself. -/
def Panel.enter (preempt : Bool) (text : String) (panel : Panel) : Ticket × Panel :=
  let panel := panel.note .info ("Playing " ++ text)
  if preempt then panel.preempt else (panel.control.ticket, panel)

namespace Connection

/-- A connection that asks for something is read up to its first request. -/
theorem await_eq_some {c : Connection} {text : String} {e : Effect} {more : List (String × Effect)}
    (h : c.requests = (text, e) :: more) (preempt : Bool) (panel : Panel) :
    ∃ rest : Connection, rest.requests = more ∧ rest.complaint? = c.complaint? ∧
      c.await preempt panel =
        (some ⟨text, e, (panel.enter preempt text).1, rest⟩, (panel.enter preempt text).2) := by
  induction c with
  | nil => cases h
  | cons line rest ih =>
    cases hline : Request.ofLine line with
    | blank =>
      simp only [requests, hline] at h
      simpa only [await, complaint?, hline] using ih h
    | play text' e' =>
      simp only [requests, hline, List.cons.injEq, Prod.mk.injEq] at h
      rcases h with ⟨⟨rfl, rfl⟩, hmore⟩
      refine ⟨rest, hmore, by simp only [complaint?, hline], ?_⟩
      simp only [await, hline]
      cases preempt <;> rfl
    | unreadable | refused => simp [requests, hline] at h

end Connection

/-! ## Serving -/

/-- The entries about a request that is played whole. -/
def Request.entries (text : String) (e : Effect) : List Entry :=
  [⟨.info, "Playing " ++ text⟩,
    ⟨.debug, e.name ++ " finished: " ++ (Outcome.completed (e.size?.getD 0)).text⟩]

namespace Queue

/-- What became of a queue that has served a connection: the requests were played whole, one after
the other, and then the complaint was noted, if there is one. -/
structure Served (q : Queue) (requests : List (String × Effect)) (complaint? : Option String)
    (q' : Queue) : Prop where
  taken : q'.sink.taken.toList =
    q.sink.taken.toList ++ Effect.trail q.generator (requests.map (·.2))
  generator : q'.generator = Effect.seeded q.generator (requests.map (·.2))
  journal : q'.panel.journal.toList = q.panel.journal.toList ++
    requests.flatMap (fun r => Request.entries r.1 r.2) ++
    complaint?.toList.map fun message => ⟨.warn, message⟩
  idle : q'.Idle

end Queue

namespace Server

variable {q : Queue} {a : Agenda Crowd}

/-- A queue that is idle can be entered: the request is not stale, and nothing was interrupted. -/
theorem idle_enter (h : q.Idle) (preempt : Bool) (text : String) :
    ({ q with panel := (q.panel.enter preempt text).2 } : Queue).Idle ∧
      (q.panel.enter preempt text).2.control.ticket = (q.panel.enter preempt text).1 ∧
      (q.panel.enter preempt text).2.journal =
        q.panel.journal.push ⟨.info, "Playing " ++ text⟩ := by
  have hopen := h.isOpen
  have hfree := h.free
  cases preempt with
  | false => exact ⟨⟨hopen, hfree, h.faultless⟩, rfl, rfl⟩
  | true =>
    have hrunning : q.panel.control.running = false := by simp [Control.running, hfree]
    have hslot : q.panel.control.interrupt.active = none := by
      simp [Control.interrupt, Control.bump, Control.cancelActive, hfree]
    have hpanel : (q.panel.enter true text).2 =
        { q.panel.note .info ("Playing " ++ text) with control := q.panel.control.interrupt } := by
      simp [Panel.enter, Panel.preempt, Panel.note, hrunning]
    rw [hpanel]
    exact ⟨⟨hopen, hslot, h.faultless⟩, rfl, rfl⟩

/-- Reading on in a connection on an idle queue, and playing what it asks for, serves it. The
induction is on the requests that are left. -/
theorem serveWithin_readOn (s : Server) (ha : a.Quiet) (hq : q.Idle) (c : Connection)
    (hends : ∀ r ∈ c.requests, r.2.size? ≠ none) {fuel : Nat} (hfuel : c.requests.length < fuel) :
    ∃ q', s.serveWithin a fuel (update (s.readOn c) q Crowd.nobody).1
        (update (s.readOn c) q Crowd.nobody).2 = some (.ok (), q', Crowd.nobody) ∧
      q.Served c.requests c.complaint? q' := by
  generalize hrequests : c.requests = requests at hends hfuel ⊢
  induction requests generalizing q c fuel with
  | nil =>
    -- the rest of the connection is read, and nobody waits
    obtain ⟨fuel, rfl⟩ := Nat.exists_eq_succ_of_ne_zero (Nat.ne_of_gt hfuel)
    refine ⟨{ q with panel := c.complain q.panel }, ?_, ?_⟩
    · simp [update, readOn, Connection.await_eq_none hrequests, serveWithin, Crowd.nobody]
    · have hcontrol : (c.complain q.panel).control = q.panel.control := by
        unfold Connection.complain
        cases c.complaint? <;> rfl
      refine ⟨by simp [Effect.trail], rfl, ?_, hcontrol ▸ hq.isOpen, hcontrol ▸ hq.free,
        hq.faultless⟩
      unfold Connection.complain
      cases c.complaint? <;> simp [Panel.note]
  | cons r more ih =>
    obtain ⟨fuel, rfl⟩ := Nat.exists_eq_succ_of_ne_zero (Nat.ne_of_gt (Nat.zero_lt_of_lt hfuel))
    rcases r with ⟨text, e⟩
    rcases Connection.await_eq_some hrequests s.preempts q.panel with
      ⟨rest, hrest, hcomplaint, hawait⟩
    -- the next request is entered and played whole, and the queue is idle again
    rcases idle_enter hq s.preempts text with ⟨hentered, hticket, hjournal⟩
    rcases Option.ne_none_iff_exists'.1 (hends _ List.mem_cons_self) with ⟨n, hsize⟩
    rcases hentered.pushWith ha hsize Crowd.nobody with ⟨played, hpush, hplayed, hidle⟩
    rcases ih hidle rest hrest (fun r hr => hends r (List.mem_cons_of_mem _ hr))
      (Nat.lt_of_succ_lt_succ hfuel) with ⟨q', hserve, hserved⟩
    rw [hticket] at hpush
    refine ⟨q', ?_, ?_⟩
    · simp only [update, readOn, hawait, Crowd.nobody, Option.toList_some, List.nil_append,
        serveWithin, play] at hserve hpush ⊢
      rw [hpush]
      exact hserve
    · have hnoted : played.panel.journal.toList =
          q.panel.journal.toList ++ Request.entries text e := by
        simp [hplayed.panel, Panel.note, hjournal, Request.entries, hsize]
      refine ⟨?_, ?_, ?_, hserved.idle⟩
      · rw [hserved.taken, hplayed.taken, hplayed.generator, List.append_assoc]
        rfl
      · rw [hserved.generator, hplayed.generator]
        rfl
      · rw [hserved.journal, hnoted, hcomplaint]
        simp

/-- Whether a connection is read when it arrives or when its turn comes, it is served. -/
theorem serveWithin_arrive (s : Server) (ha : a.Quiet) (hq : q.Idle) (c : Connection)
    (hends : ∀ r ∈ c.requests, r.2.size? ≠ none) {fuel : Nat} (hfuel : turns c < fuel) :
    ∃ q', s.serveWithin a fuel (update (s.arrive c) q Crowd.nobody).1
        (update (s.arrive c) q Crowd.nobody).2 = some (.ok (), q', Crowd.nobody) ∧
      q.Served c.requests c.complaint? q' := by
  have hlength := c.length_requests_le
  unfold turns at hfuel
  cases hdispatch : s.dispatch with
  | serial =>
    -- the first turn is spent on reading the connection
    obtain ⟨fuel, rfl⟩ := Nat.exists_eq_succ_of_ne_zero (Nat.ne_of_gt (Nat.zero_lt_of_lt hfuel))
    rcases serveWithin_readOn s ha hq c hends (show c.requests.length < fuel by omega) with
      ⟨q', hserve, hserved⟩
    refine ⟨q', ?_, hserved⟩
    simpa [arrive, hdispatch, update, serveWithin, Crowd.nobody] using hserve
  | concurrent =>
    rcases serveWithin_readOn s ha hq c hends (show c.requests.length < fuel by omega) with
      ⟨q', hserve, hserved⟩
    have harrive : s.arrive c = s.readOn c := by
      funext x
      simp [arrive, hdispatch]
    exact ⟨q', harrive ▸ hserve, hserved⟩

/-- A server on an idle queue, with nothing else going on, serves the first of its connections and
goes on with the others. -/
theorem run_cons (s : Server) (hq : q.Idle) (c : Connection)
    (hends : ∀ r ∈ c.requests, r.2.size? ≠ none) :
    ∃ q', q.Served c.requests c.complaint? q' ∧ ∀ rest, s.run [] q (c :: rest) =
      (s.run [] q' rest).map fun others =>
        { others with lines := q'.sink.lines.drop q.sink.completed :: others.lines } := by
  have hquiet : (s.agenda []).Quiet := Agenda.quiet_ofTable_nil s.react
  rcases serveWithin_arrive s hquiet hq c hends (Nat.lt_succ_self (turns c)) with
    ⟨q', hserve, hserved⟩
  refine ⟨q', hserved, fun rest => ?_⟩
  simp only [run, List.flatMap_nil, List.map_nil, List.foldr_nil, Nat.add_zero]
  rw [hserve]
  cases hrun : s.run [] q' rest <;> simp [hrun]

end Server

end Beacon
