import Beacon.Proofs.Queue.Calls
import Beacon.Server
import Mathlib.Data.List.Basic

/-!
# Connections that share a server, round by round

A server that handles connections at once, without preemption, plays what they ask for one request
after the other, in the order in which the requests came.

1. **Arrivals**: reading on changes nothing but the journal, and whoever arrives while lines are
   written joins the crowd (`Server.throughout_arriving`).
2. **Rounds**: what serving a crowd comes to, without its fuel: one request is played, its
   connection is read on, and so on (`Server.Rounds`).
3. **Openings**: what a run of the server comes to, connection by connection (`Server.Openings`).
-/

namespace Beacon

/-! ## Arrivals -/

namespace Connection

/-- The request that a connection comes to next, with its ticket, where nobody preempts. -/
def next? (t : Ticket) (c : Connection) : Option Waiting :=
  (c.await false ⟨⟨t.epoch, false, none⟩, #[]⟩).1

/-- What a connection comes to depends on the epoch alone, and reading on without preemption changes
nothing but the journal. -/
theorem await_false (c : Connection) (panel : Panel) :
    (c.await false panel).1 = c.next? panel.control.ticket ∧
      (c.await false panel).2.control = panel.control := by
  unfold next?
  induction c with
  | nil => exact ⟨rfl, rfl⟩
  | cons line rest ih =>
    simp only [await]
    cases Request.ofLine line with
    | blank => exact ih
    | unreadable | refused | play => exact ⟨rfl, rfl⟩

end Connection

/-- A crowd that connections have joined, with the requests that they come to. -/
def Crowd.joined (t : Ticket) (connections : List Connection) (crowd : Crowd) : Crowd :=
  { crowd with waiting := crowd.waiting ++ connections.filterMap (Connection.next? t) }

theorem Crowd.joined_joined (t : Ticket) (connections more : List Connection) (crowd : Crowd) :
    (crowd.joined t connections).joined t more = crowd.joined t (connections ++ more) := by
  simp [joined]

/-- The same queue, but for its journal and its clock. -/
structure Queue.Renoted (q q' : Queue) : Prop where
  sink : q'.sink = q.sink
  generator : q'.generator = q.generator
  control : q'.panel.control = q.panel.control

namespace Server

variable {table : List (Nat × List Connection)} {q q' : Queue} {crowd crowd' : Crowd}

/-- The server that handles connections at once, without preemption. -/
def sharing : Server := ⟨.concurrent, false⟩

/-- What happens where all that ever happens is that connections arrive. -/
def arriving (table : List (Nat × List Connection)) : List (Nat × List Event) :=
  table.map fun row => (row.1, row.2.map Event.arrival)

theorem entries_arriving (table : List (Nat × List Connection)) (line : Nat) :
    Agenda.entries (arriving table) line = (Agenda.entries table line).map Event.arrival := by
  simp [Agenda.entries, arriving, List.filter_map, Function.comp_def, List.flatMap_map,
    List.map_flatMap]

theorem listed_arriving (table : List (Nat × List Connection)) (line count : Nat) :
    Agenda.listed (arriving table) line count =
      (Agenda.listed table line count).map Event.arrival := by
  rw [Agenda.listed, Agenda.listed, List.map_flatMap]
  exact List.flatMap_congr fun k _ => entries_arriving table k

theorem readOn_sharing (c : Connection) (x : Panel × Crowd) :
    (sharing.readOn c x).1.control = x.1.control ∧
      (sharing.readOn c x).2 = x.2.joined x.1.control.ticket [c] := by
  obtain ⟨hnext, hcontrol⟩ := c.await_false x.1
  refine ⟨hcontrol, ?_⟩
  show { x.2 with waiting := x.2.waiting ++ (c.await false x.1).1.toList } = _
  rw [hnext, Crowd.joined]
  cases hc : c.next? x.1.control.ticket <;> simp [hc]

/-- Connections that arrive join the crowd, and the control stays as it is. -/
theorem foldl_arrivals (connections : List Connection) (x : Panel × Crowd) :
    (connections.foldl (fun x c => sharing.react (.arrival c) x) x).1.control = x.1.control ∧
      (connections.foldl (fun x c => sharing.react (.arrival c) x) x).2 =
        x.2.joined x.1.control.ticket connections := by
  induction connections generalizing x with
  | nil => exact ⟨rfl, by simp [Crowd.joined]⟩
  | cons c connections ih =>
    obtain ⟨hcontrol, hcrowd⟩ := readOn_sharing c x
    obtain ⟨hcontrol', hcrowd'⟩ := ih (sharing.readOn c x)
    rw [hcontrol, hcrowd] at hcrowd'
    refine ⟨hcontrol'.trans hcontrol, hcrowd'.trans ?_⟩
    rw [Crowd.joined_joined, List.singleton_append]

theorem throughout_arriving (table : List (Nat × List Connection)) (line count : Nat)
    (x : Panel × Crowd) :
    ((sharing.agenda (arriving table)).throughout line count x).1.control = x.1.control ∧
      ((sharing.agenda (arriving table)).throughout line count x).2 =
        x.2.joined x.1.control.ticket (Agenda.listed table line count) := by
  rw [agenda, Agenda.throughout_ofTable, listed_arriving, List.foldl_map]
  exact foldl_arrivals _ x

/-- While a request is played, the connections join the crowd that arrive during its lines. -/
theorem exists_joined_of_pushWith {t : Ticket} {e : Effect} {result : Except IoError Outcome}
    (h : q.pushWith (sharing.agenda (arriving table)) t e crowd = some (result, q', crowd')) :
    ∃ n, q'.sink.completed = q.sink.completed + n ∧
      crowd' = crowd.joined q.panel.control.ticket (Agenda.listed table q.sink.completed n) ∧
      q'.panel.control.ticket = q.panel.control.ticket := by
  obtain ⟨n, panel, hticket, hcompleted, hcrowd, hcontrol⟩ := Queue.exists_throughout_pushWith h
  obtain ⟨hkept, hjoined⟩ := throughout_arriving table q.sink.completed n (panel, crowd)
  refine ⟨n, hcompleted, ?_, ?_⟩
  · rw [hcrowd, hjoined, hticket]
  · rw [hcontrol, hkept, hticket]

/-! ## Rounds -/

/-- What serving comes to, round by round, and without its fuel: nobody waits any more; or the first
of those who wait is played, and the light fails; or the light does not fail, the connection of that
one is read on, and there is another round. -/
inductive Rounds (table : List (Nat × List Connection)) :
    Queue → Crowd → Except IoError Unit → Queue → Prop
  | done {q : Queue} {crowd : Crowd} (hnobody : crowd.waiting = []) :
      Rounds table q crowd (.ok ()) q
  | fails {q q' : Queue} {crowd crowd' : Crowd} {w : Waiting} {waiting : List Waiting}
      {error : IoError} (hfirst : crowd.waiting = w :: waiting)
      (hpush : q.pushWith (sharing.agenda (arriving table)) w.ticket w.effect
        { crowd with waiting } = some (.error error, q', crowd')) :
      Rounds table q crowd (.error error) q'
  | next {q q₁ q₂ q' : Queue} {crowd crowd₁ : Crowd} {w : Waiting} {waiting : List Waiting}
      {outcome : Outcome} {result : Except IoError Unit} (hfirst : crowd.waiting = w :: waiting)
      (hpush : q.pushWith (sharing.agenda (arriving table)) w.ticket w.effect
        { crowd with waiting } = some (.ok outcome, q₁, crowd₁)) (hsame : q₁.Renoted q₂)
      (hmore : Rounds table q₂ (crowd₁.joined q₁.panel.control.ticket [w.rest]) result q') :
      Rounds table q crowd result q'

/-- Noting something and reading on changes only the journal of the queue. -/
theorem update_readOn (c : Connection) {q q₁ : Queue} (h : q.Renoted q₁) (crowd : Crowd) :
    q.Renoted (update (sharing.readOn c) q₁ crowd).1 ∧
      (update (sharing.readOn c) q₁ crowd).2 = crowd.joined q.panel.control.ticket [c] := by
  obtain ⟨hcontrol, hcrowd⟩ := readOn_sharing c (q₁.panel, crowd)
  exact ⟨⟨h.sink, h.generator, hcontrol.trans h.control⟩, h.control ▸ hcrowd⟩

/-- What serving comes to are rounds. The induction is on the fuel. -/
theorem rounds_of_serveWithin {fuel : Nat} {result : Except IoError Unit}
    (hserve : sharing.serveWithin (sharing.agenda (arriving table)) fuel q crowd =
      some (result, q', crowd')) (hunread : crowd.unread = []) :
    Rounds table q crowd result q' := by
  induction fuel generalizing q crowd with
  | zero => cases hserve
  | succ fuel ih =>
    cases hwaiting : crowd.waiting with
    | nil =>
      simp only [serveWithin, hwaiting, hunread, Option.some.injEq, Prod.mk.injEq] at hserve
      obtain ⟨rfl, rfl, -⟩ := hserve
      exact .done hwaiting
    | cons w waiting =>
      simp only [serveWithin, hwaiting, play] at hserve
      rcases hpush : q.pushWith (sharing.agenda (arriving table)) w.ticket w.effect
        { crowd with waiting } with _ | ⟨answer, q₁, crowd₁⟩
      · simp [hpush] at hserve
      · obtain ⟨n, -, hjoined, -⟩ := exists_joined_of_pushWith hpush
        have hunread₁ : crowd₁.unread = [] := by rw [hjoined, Crowd.joined, ← hunread]
        cases answer with
        | error error =>
          simp only [hpush, Option.some.injEq, Prod.mk.injEq] at hserve
          obtain ⟨rfl, rfl, -⟩ := hserve
          exact .fails hwaiting hpush
        | ok outcome =>
          -- a request that was skipped is noted as dropped, and then its connection is read on
          obtain ⟨q₂, hsame, hserve⟩ : ∃ q₂, q₁.Renoted q₂ ∧
              sharing.serveWithin (sharing.agenda (arriving table)) fuel
                (update (sharing.readOn w.rest) q₂ crowd₁).1
                (update (sharing.readOn w.rest) q₂ crowd₁).2 = some (result, q', crowd') := by
            cases outcome with
            | skipped => exact ⟨drop w q₁, ⟨rfl, rfl, rfl⟩, by simpa only [hpush] using hserve⟩
            | completed | interrupted =>
              exact ⟨q₁, ⟨rfl, rfl, rfl⟩, by simpa only [hpush] using hserve⟩
          obtain ⟨hsame', hcrowd⟩ := update_readOn w.rest hsame crowd₁
          rw [hcrowd] at hserve
          exact .next hwaiting hpush hsame' (ih hserve hunread₁)

/-- The lines of the light only become more. -/
theorem Rounds.completed_le {result : Except IoError Unit} (h : Rounds table q crowd result q') :
    q.sink.completed ≤ q'.sink.completed := by
  induction h with
  | done => exact Nat.le_refl _
  | fails hfirst hpush =>
    obtain ⟨n, hn, -⟩ := exists_joined_of_pushWith hpush
    exact hn ▸ Nat.le_add_right _ _
  | next hfirst hpush hsame hmore ih =>
    obtain ⟨n, hn, -⟩ := exists_joined_of_pushWith hpush
    rw [hsame.sink, hn] at ih
    exact Nat.le_trans (Nat.le_add_right _ _) ih

/-! ## Openings -/

/-- What a run of a server comes to, connection by connection: those that are opened are served
until nobody waits any more, one after the other, and a failure of the light ends it all. -/
inductive Openings (table : List (Nat × List Connection)) :
    Queue → List Connection → Option IoError → Queue → Prop
  | done {q : Queue} : Openings table q [] none q
  | fails {q q₁ q' : Queue} {c : Connection} {error : IoError} (hsame : q.Renoted q₁)
      (hrounds : Rounds table q₁ (Crowd.nobody.joined q.panel.control.ticket [c]) (.error error)
        q') : Openings table q [c] (some error) q'
  | next {q q₁ q₂ q' : Queue} {c : Connection} {opened : List Connection}
      {failure : Option IoError} (hsame : q.Renoted q₁)
      (hrounds : Rounds table q₁ (Crowd.nobody.joined q.panel.control.ticket [c]) (.ok ()) q₂)
      (hmore : Openings table q₂ opened failure q') : Openings table q (c :: opened) failure q'

theorem openings_of_run {connections : List Connection} {run : Run}
    (hrun : Server.run sharing (arriving table) q connections = some run) :
    Openings table q (connections.take run.lines.length) run.failure run.queue := by
  induction connections generalizing q run with
  | nil =>
    obtain rfl := Option.some.inj hrun
    exact .done
  | cons c rest ih =>
    simp only [Server.run, Option.bind_eq_bind, Option.bind_eq_some_iff] at hrun
    obtain ⟨⟨result, after, crowd⟩, hserve, hrun⟩ := hrun
    obtain ⟨hsame, hcrowd⟩ := update_readOn c (q := q) ⟨rfl, rfl, rfl⟩ Crowd.nobody
    have harrive : sharing.arrive c = sharing.readOn c := rfl
    rw [harrive, hcrowd] at hserve
    -- whoever is opened finds nobody waiting
    have hrounds := rounds_of_serveWithin hserve rfl
    cases result with
    | error error =>
      obtain rfl := Option.some.inj hrun
      exact .fails hsame hrounds
    | ok =>
      simp only [Option.bind_eq_some_iff] at hrun
      obtain ⟨others, hothers, hrun⟩ := hrun
      obtain rfl := Option.some.inj hrun
      exact .next hsame hrounds (ih hothers)

theorem Openings.completed_le {opened : List Connection} {failure : Option IoError}
    (h : Openings table q opened failure q') : q.sink.completed ≤ q'.sink.completed := by
  induction h with
  | done => exact Nat.le_refl _
  | fails hsame hrounds => exact hsame.sink ▸ hrounds.completed_le
  | next hsame hrounds _ ih => exact Nat.le_trans (hsame.sink ▸ hrounds.completed_le) ih

end Server

end Beacon
