import Beacon.Proofs.Queue.Draining
import Beacon.Proofs.Server.Serving
import Beacon.Proofs.Text.Blank
import Beacon.Proofs.Text.Utf8

/-!
# Serial servers, run whole

What the bytes of a connection ask for is settled by its lines before the first bad one
(`Connection.asked`), however these lines end (`Connection.asked_ofBytes`). Undisturbed, a serial
server plays what its connections ask for, one effect after the other and one connection after the
other, on any light; and it plays nothing more once the light has failed (`Server.run_serial`).
-/

namespace Beacon

/-! ## What bytes ask for -/

namespace Request

/-- Whether a connection goes on after a line. -/
def readable : Request → Bool
  | blank | play .. => true
  | unreadable | refused _ => false

/-- The effect that a line asks for. -/
def effect? : Request → Option Effect
  | play _ e => some e
  | _ => none

/-- The carriage return at the end of a line does not count. -/
theorem ofLine_concat_return (line : List UInt8) : ofLine (line ++ [0x0D]) = ofLine line := by
  unfold ofLine
  rw [Text.decode?_concat (c := '\r') (by decide) (by decide)]
  cases Text.decode? line with
  | none => rfl
  | some cs => simp only [Option.map_some, Text.trim_concat (c := '\r') (by decide)]

end Request

/-- How a line can end. -/
inductive LineEnd
  | plain
  | afterReturn

/-- The bytes at the end of a line. -/
def LineEnd.bytes : LineEnd → List UInt8
  | plain => [0x0A]
  | afterReturn => [0x0D, 0x0A]

namespace Connection

/-- The effects that the lines before the first bad one ask for. -/
def asked (c : Connection) : List Effect :=
  ((c.map Request.ofLine).takeWhile Request.readable).filterMap Request.effect?

theorem asked_cons_congr {line line' : List UInt8} {c c' : Connection}
    (h : Request.ofLine line = Request.ofLine line') (hc : asked c = asked c') :
    asked (line :: c) = asked (line' :: c') := by
  unfold asked at hc ⊢
  rw [List.map_cons, List.map_cons, h]
  cases hreadable : (Request.ofLine line').readable with
  | false => simp [hreadable]
  | true => simp [hreadable, List.filterMap_cons, hc]

/-- What a connection asks for is what the server reads from it. -/
theorem asked_eq (c : Connection) : c.asked = c.requests.map (·.2) := by
  induction c with
  | nil => rfl
  | cons line rest ih =>
    unfold asked at ih ⊢
    rw [List.map_cons, List.takeWhile_cons]
    cases hline : Request.ofLine line <;>
      simp [requests, hline, Request.readable, Request.effect?, List.filterMap_cons, ih]

/-- A bad line, and what follows it, asks for nothing. -/
theorem asked_append_bad {bad : List UInt8} (hbad : (Request.ofLine bad).readable = false)
    (good rest : Connection) : asked (good ++ bad :: rest) = asked good := by
  unfold asked
  rw [List.map_append, List.map_cons, List.takeWhile_append,
    List.takeWhile_cons_of_neg (by simp [hbad]), List.append_nil]
  split
  · next hall => rw [(List.takeWhile_prefix _).eq_of_length hall]
  · rfl

/-- Lines can end with or without a carriage return, and the last one without anything. -/
theorem asked_ofBytes {lines : List (List UInt8 × LineEnd)} {last : List UInt8}
    (hlines : ∀ l ∈ lines, 0x0A ∉ l.1) (hlast : 0x0A ∉ last) :
    asked (ofBytes (lines.flatMap (fun l => l.1 ++ l.2.bytes) ++ last)) =
      asked (lines.map (·.1) ++ [last]) := by
  induction lines with
  | nil =>
    rw [List.flatMap_nil, List.nil_append, ofBytes, Text.lines_of_notMem hlast]
    split
    · next hempty =>
      rw [hempty]
      rfl
    · rfl
  | cons l lines ih =>
    have hl := hlines l List.mem_cons_self
    have hrest := ih fun l' hl' => hlines l' (List.mem_cons_of_mem _ hl')
    rw [List.flatMap_cons, List.map_cons, List.cons_append]
    rcases l with ⟨line, lineEnd⟩
    cases lineEnd with
    | plain =>
      -- the line ends at the first newline, which is not in it
      rw [LineEnd.bytes, List.append_assoc, List.append_assoc, List.singleton_append, ofBytes,
        Text.lines_append_sep hl]
      exact asked_cons_congr rfl hrest
    | afterReturn =>
      -- the return belongs to the line, and is trimmed with its blanks
      have hreturn : (0x0A : UInt8) ∉ line ++ [0x0D] := by
        simpa using hl
      have hsplit : line ++ [0x0D, 0x0A] = line ++ [0x0D] ++ [0x0A] := by simp
      rw [LineEnd.bytes, hsplit, List.append_assoc, List.append_assoc, List.singleton_append,
        ofBytes, Text.lines_append_sep hreturn]
      exact asked_cons_congr (Request.ofLine_concat_return line) hrest

end Connection

/-! ## Effects one after the other -/

namespace Effect

/-- The colours of effects that are played one after the other, each with the next seed. -/
def colors (g : Random.Generator) : List Effect → List Color
  | [] => []
  | e :: rest => (e.frames g.wide.1).map Frame.color ++ colors g.wide.2 rest

theorem colors_append (g : Random.Generator) (effects more : List Effect) :
    colors g (effects ++ more) = colors g effects ++ colors (seeded g effects) more := by
  induction effects generalizing g with
  | nil => rfl
  | cons e effects ih => simp [colors, seeded, ih]

theorem wire_colors (g : Random.Generator) (effects : List Effect) :
    (colors g effects).flatMap Color.wire = trail g effects := by
  induction effects generalizing g with
  | nil => rfl
  | cons e effects ih => simp [colors, trail, ih, bytes, List.flatMap_map, Color.wire]

/-- A generator that has seeded effects for a sink, up to the first effect that the sink fails. -/
def drawn (s : Sink) (g : Random.Generator) : List Effect → Random.Generator
  | [] => g
  | e :: rest =>
    match s.writeFrames ((e.frames g.wide.1).map Frame.color) with
    | (.ok (), s) => drawn s g.wide.2 rest
    | (.error _, _) => g.wide.2

/-- A sink that takes all colours lets all effects be seeded. -/
theorem drawn_of_ok {s : Sink} {g : Random.Generator} {effects : List Effect}
    (h : (s.writeFrames (colors g effects)).1 = .ok ()) : drawn s g effects = seeded g effects := by
  induction effects generalizing s g with
  | nil => rfl
  | cons e effects ih =>
    rw [colors, Sink.writeFrames_append] at h
    rw [drawn, seeded]
    rcases hfirst : s.writeFrames ((e.frames g.wide.1).map Frame.color) with ⟨result, s₁⟩
    rw [hfirst] at h
    cases result with
    | error err => cases h
    | ok => exact ih h

/-- Effects are seeded one after the other. -/
theorem drawn_append (s : Sink) (g : Random.Generator) (effects more : List Effect) :
    drawn s g (effects ++ more) = match s.writeFrames (colors g effects) with
      | (.ok (), s) => drawn s (seeded g effects) more
      | (.error _, _) => drawn s g effects := by
  induction effects generalizing s g with
  | nil => rfl
  | cons e effects ih =>
    rw [colors, Sink.writeFrames_append, List.cons_append, drawn, drawn, seeded]
    rcases s.writeFrames ((e.frames g.wide.1).map Frame.color) with ⟨result, s₁⟩
    cases result with
    | error err => rfl
    | ok => exact ih s₁ g.wide.2

end Effect

namespace Queue

variable {q q₁ q' : Queue} {effects more : List Effect} {result : Except IoError Unit} {e : IoError}

/-- What has become of a queue that had to play effects one after the other, undisturbed: their
colours were written until the sink failed, and the control is as before. -/
structure PlayedAll (q : Queue) (effects : List Effect) (result : Except IoError Unit)
    (q' : Queue) : Prop where
  written : q.sink.writeFrames (Effect.colors q.generator effects) = (result, q'.sink)
  generator : q'.generator = Effect.drawn q.sink q.generator effects
  control : q'.panel.control = q.panel.control

theorem PlayedAll.nil (q : Queue) {panel : Panel} (h : panel.control = q.panel.control) :
    q.PlayedAll [] (.ok ()) { q with panel } := ⟨rfl, rfl, h⟩

/-- Effects that were all played are followed by others. -/
theorem PlayedAll.append (h : q.PlayedAll effects (.ok ()) q₁) (h' : q₁.PlayedAll more result q') :
    q.PlayedAll (effects ++ more) result q' := by
  have hok : (q.sink.writeFrames (Effect.colors q.generator effects)).1 = .ok () := by
    rw [h.written]
  have hgenerator := h.generator
  rw [Effect.drawn_of_ok hok] at hgenerator
  have hwritten := h'.written
  have hdrawn := h'.generator
  rw [hgenerator] at hwritten hdrawn
  refine ⟨?_, ?_, h'.control.trans h.control⟩
  · rw [Effect.colors_append, Sink.writeFrames_append, h.written]
    exact hwritten
  · rw [Effect.drawn_append, h.written]
    exact hdrawn

/-- Once the sink has failed, nothing follows. -/
theorem PlayedAll.append_of_error (h : q.PlayedAll effects (.error e) q') (more : List Effect) :
    q.PlayedAll (effects ++ more) (.error e) q' := by
  refine ⟨?_, ?_, h.control⟩
  · rw [Effect.colors_append, Sink.writeFrames_append, h.written]
  · rw [Effect.drawn_append, h.written]
    exact h.generator

/-- A queue that can be asked to play something: it has not been closed, and plays nothing. -/
structure Free (q : Queue) : Prop where
  isOpen : q.panel.control.closed = false
  free : q.panel.control.active = none

theorem PlayedAll.free (h : q.PlayedAll effects result q') (hq : q.Free) : q'.Free :=
  ⟨h.control ▸ hq.isOpen, h.control ▸ hq.free⟩

end Queue

/-! ## Serving on any light -/

namespace Server

open Queue (Free PlayedAll)

variable {q : Queue} {a : Agenda Crowd} {s : Server}

/-- A request that is read is played, as far as the light takes it. -/
theorem play_quiet (ha : a.Quiet) (hq : q.Free) {e : Effect} (hends : e.size? ≠ none)
    (text : String) (rest : Connection) (crowd : Crowd) :
    ∃ result q', play a ⟨text, e, q.panel.control.ticket, rest⟩ q crowd =
      some (result, q', crowd) ∧ q.PlayedAll [e] result q' := by
  rcases Option.ne_none_iff_exists'.1 hends with ⟨n, hsize⟩
  rcases Queue.pushWith_quiet ha hq.isOpen hq.free hsize crowd with
    ⟨q', hpush, hsink, hgenerator, hcontrol⟩
  refine ⟨(q.sink.writeFrames (Effect.colors q.generator [e])).1, q', ?_, ?_, ?_, hcontrol⟩
  · simp only [play, Effect.colors, List.append_nil, hpush]
    cases (q.sink.writeFrames ((e.frames q.generator.wide.1).map Frame.color)).1 <;> rfl
  · rw [Effect.colors, Effect.colors, List.append_nil, hsink]
  · rw [hgenerator, Effect.drawn]
    split <;> rfl

/-- Reading on in a connection, and playing what it asks for, comes to an end: all of it has been
played, or the light has failed. The induction is on the requests that are left. -/
theorem serveWithin_readOn_free (hs : s.preempts = false) (ha : a.Quiet) (hq : q.Free)
    (c : Connection) (hends : ∀ r ∈ c.requests, r.2.size? ≠ none) {fuel : Nat}
    (hfuel : c.requests.length < fuel) :
    ∃ result q' crowd, s.serveWithin a fuel (update (s.readOn c) q Crowd.nobody).1
        (update (s.readOn c) q Crowd.nobody).2 = some (result, q', crowd) ∧
      q.PlayedAll (c.requests.map (·.2)) result q' := by
  generalize hrequests : c.requests = requests at hends hfuel ⊢
  induction requests generalizing q c fuel with
  | nil =>
    -- the rest of the connection is read, and nobody waits
    obtain ⟨fuel, rfl⟩ := Nat.exists_eq_succ_of_ne_zero (Nat.ne_of_gt hfuel)
    have hcontrol : (c.complain q.panel).control = q.panel.control := by
      unfold Connection.complain
      cases c.complaint? <;> rfl
    refine ⟨.ok (), { q with panel := c.complain q.panel }, Crowd.nobody, ?_, .nil q hcontrol⟩
    simp [update, readOn, Connection.await_eq_none hrequests, serveWithin, Crowd.nobody]
  | cons r more ih =>
    obtain ⟨fuel, rfl⟩ := Nat.exists_eq_succ_of_ne_zero (Nat.ne_of_gt (Nat.zero_lt_of_lt hfuel))
    rcases r with ⟨text, e⟩
    rcases Connection.await_eq_some hrequests s.preempts q.panel with ⟨rest, hrest, -, hawait⟩
    rw [hs] at hawait
    let entered : Queue := { q with panel := q.panel.note .info ("Playing " ++ text) }
    have hentered : entered.Free := ⟨hq.isOpen, hq.free⟩
    rcases play_quiet ha hentered (hends _ List.mem_cons_self) text rest
      Crowd.nobody with ⟨result, played, hplay, hplayed⟩
    have hplayed : q.PlayedAll [e] result played :=
      ⟨hplayed.written, hplayed.generator, hplayed.control⟩
    have hread : update (s.readOn c) q Crowd.nobody =
        (entered, ⟨[⟨text, e, q.panel.control.ticket, rest⟩], []⟩) := by
      simp [update, readOn, hs, hawait, Panel.enter, Crowd.nobody, entered, Panel.note]
    have hnow : play a ⟨text, e, q.panel.control.ticket, rest⟩ entered ⟨[], []⟩ =
        some (result, played, Crowd.nobody) := hplay
    rw [hread, serveWithin]
    simp only [hnow]
    -- a light that fails ends it all; otherwise the connection is read on
    cases result with
    | error err => exact ⟨.error err, played, Crowd.nobody, rfl, hplayed.append_of_error _⟩
    | ok =>
      rcases ih (hplayed.free hq) rest hrest (fun r hr => hends r (List.mem_cons_of_mem _ hr))
        (Nat.lt_of_succ_lt_succ hfuel) with ⟨result, q', crowd, hserve, hmore⟩
      exact ⟨result, q', crowd, hserve, hplayed.append hmore⟩

/-- A serial server plays what its connections ask for, as far as the light takes it. -/
theorem exists_run_serial (preempt : Bool) (hq : q.Free) (connections : List Connection)
    (hends : ∀ c ∈ connections, ∀ e ∈ c.asked, e.size? ≠ none) :
    ∃ run, Server.run ⟨.serial, preempt⟩ [] q connections = some run ∧
      q.PlayedAll (connections.flatMap Connection.asked) (run.failure.elim (.ok ()) .error)
        run.queue ∧
      (run.failure = none → run.lines.length = connections.length) := by
  induction connections generalizing q with
  | nil => exact ⟨⟨[], none, q⟩, rfl, .nil q rfl, fun _ => rfl⟩
  | cons c rest ih =>
    let s : Server := ⟨.serial, preempt⟩
    have hquiet : (s.agenda []).Quiet := Agenda.quiet_ofTable_nil s.react
    have hasked : ∀ r ∈ c.requests, r.2.size? ≠ none := by
      intro r hr
      apply hends c List.mem_cons_self
      rw [c.asked_eq]
      exact List.mem_map_of_mem hr
    have hlength := c.length_requests_le
    rcases serveWithin_readOn_free (s := s) (by simp [preempts, s]) hquiet hq c hasked
      (Nat.lt_succ_of_le hlength) with ⟨result, after, crowd, hserve, hplayed⟩
    rw [← c.asked_eq] at hplayed
    -- the first turn is spent on reading the connection
    have hturns : s.serveWithin (s.agenda []) (turns c + 1) (update (s.arrive c) q Crowd.nobody).1
        (update (s.arrive c) q Crowd.nobody).2 = some (result, after, crowd) := by
      simpa [arrive, s, update, serveWithin, Crowd.nobody, turns] using hserve
    rw [List.flatMap_cons]
    cases result with
    | error err =>
      refine ⟨⟨[after.sink.lines.drop q.sink.completed], some err, after⟩, ?_,
        hplayed.append_of_error _, by simp⟩
      simp only [run, List.flatMap_nil, List.map_nil, List.foldr_nil, Nat.add_zero]
      rw [hturns]
      rfl
    | ok =>
      rcases ih (hplayed.free hq) fun c' hc' => hends c' (List.mem_cons_of_mem _ hc') with
        ⟨others, hothers, hmore, hall⟩
      refine ⟨{ others with lines := after.sink.lines.drop q.sink.completed :: others.lines }, ?_,
        hplayed.append hmore, ?_⟩
      · simp only [run, List.flatMap_nil, List.map_nil, List.foldr_nil, Nat.add_zero]
        rw [hturns]
        simp [hothers]
      · intro hnone
        rw [List.length_cons, List.length_cons, hall hnone]

/-- What has become of a serial run, of so many connections, that had to play effects on a queue:
all their frames have been written, or those before the first that failed, and that failure has
ended it. -/
structure Run.Played (q : Queue) (effects : List Effect) (connections : Nat) (run : Run) :
    Prop where
  lasts : q.sink.behaviour.Faultless → run.failure = none
  whole : run.failure = none →
    run.lines.length = connections ∧
    run.queue.sink.taken.toList = q.sink.taken.toList ++ Effect.trail q.generator effects ∧
    run.queue.generator = Effect.seeded q.generator effects
  fails : ∀ shown c rest e, Effect.colors q.generator effects = shown ++ c :: rest →
    (q.sink.writeFrames shown).1 = .ok () →
    ((q.sink.writeFrames shown).2.writeFrame c).1 = .error e →
    run.failure = some e ∧ run.queue.sink = ((q.sink.writeFrames shown).2.writeFrame c).2
  failed : ∀ e, run.failure = some e →
    ∃ shown c rest, Effect.colors q.generator effects = shown ++ c :: rest ∧
      (q.sink.writeFrames shown).1 = .ok () ∧
      (q.sink.writeFrames shown).2.writeFrame c = (.error e, run.queue.sink)
  control : run.queue.panel.control = q.panel.control

theorem Run.Played.of_playedAll {run : Run} {effects : List Effect} {connections : Nat}
    (h : q.PlayedAll effects (run.failure.elim (.ok ()) .error) run.queue)
    (hlength : run.failure = none → run.lines.length = connections) :
    run.Played q effects connections where
  lasts hb := by
    have hok := Sink.writeFrames_faultless hb (Effect.colors q.generator effects)
    rw [h.written] at hok
    cases hfailure : run.failure with
    | none => rfl
    | some e => simp [hfailure] at hok
  whole hnone := by
    have hok : (q.sink.writeFrames (Effect.colors q.generator effects)).1 = .ok () := by
      rw [h.written, hnone]
      rfl
    have htaken := (Sink.took_writeFrames hok).1.taken
    rw [h.written, Effect.wire_colors] at htaken
    exact ⟨hlength hnone, htaken, h.generator.trans (Effect.drawn_of_ok hok)⟩
  fails shown c rest e hsplit hok hfails := by
    have hwritten := h.written
    rw [hsplit, Sink.writeFrames_of_fails hok hfails, Prod.mk.injEq] at hwritten
    refine ⟨?_, hwritten.2.symm⟩
    cases hfailure : run.failure with
    | none => simp [hfailure] at hwritten
    | some e' => simpa [hfailure, eq_comm] using hwritten.1
  failed e hfailure := by
    have herror : (q.sink.writeFrames (Effect.colors q.generator effects)).1 = .error e := by
      rw [h.written, hfailure]
      rfl
    rcases Sink.exists_of_writeFrames_eq_error herror with ⟨shown, c, rest, hsplit, hok, hfails⟩
    rw [h.written] at hfails
    exact ⟨shown, c, rest, hsplit, hok, hfails⟩
  control := h.control

/-- Runs that have come to the same, but for what is in the journal. -/
structure Run.Same (run run' : Run) : Prop where
  failure : run'.failure = run.failure
  sink : run'.queue.sink = run.queue.sink
  generator : run'.queue.generator = run.queue.generator
  control : run'.queue.panel.control = run.queue.panel.control

theorem Run.Same.of_playedAll {run run' : Run} {effects : List Effect}
    (h : q.PlayedAll effects (run.failure.elim (.ok ()) .error) run.queue)
    (h' : q.PlayedAll effects (run'.failure.elim (.ok ()) .error) run'.queue) :
    run.Same run' := by
  have hsame := h'.written.symm.trans h.written
  rw [Prod.mk.injEq] at hsame
  refine ⟨?_, hsame.2, h'.generator.trans h.generator.symm, h'.control.trans h.control.symm⟩
  cases hfailure : run.failure <;> cases hfailure' : run'.failure <;> simp_all

/-- An undisturbed serial server on a free queue reads one connection after the other, whatever
their bytes are, and plays what their lines before the first bad one ask for. A bad line and what
follows it make no difference, nor does it matter how lines end. -/
theorem run_serial (preempt : Bool) {q : Queue} (hopen : q.panel.control.closed = false)
    (hfree : q.panel.control.active = none) (connections : List (List UInt8))
    (hends : ∀ bytes ∈ connections, ∀ e ∈ (Connection.ofBytes bytes).asked, e.size? ≠ none) :
    (∃ run, Server.run ⟨.serial, preempt⟩ [] q (connections.map Connection.ofBytes) = some run ∧
      run.Played q ((connections.map Connection.ofBytes).flatMap Connection.asked)
        connections.length ∧
      ∀ earlier bytes later good bad rest, connections = earlier ++ bytes :: later →
        Connection.ofBytes bytes = good ++ bad :: rest →
        (Request.ofLine bad).readable = false →
        ∃ run', Server.run ⟨.serial, preempt⟩ [] q
            (earlier.map Connection.ofBytes ++ good :: later.map Connection.ofBytes) =
              some run' ∧ run.Same run') ∧
    ∀ (lines : List (List UInt8 × LineEnd)) (last : List UInt8), (∀ l ∈ lines, 0x0A ∉ l.1) →
      0x0A ∉ last →
      (Connection.ofBytes (lines.flatMap (fun l => l.1 ++ l.2.bytes) ++ last)).asked =
        Connection.asked (lines.map (·.1) ++ [last]) := by
  have hq : q.Free := ⟨hopen, hfree⟩
  have hlinewise : ∀ c ∈ connections.map Connection.ofBytes, ∀ e ∈ Connection.asked c,
      e.size? ≠ none := by
    intro c hc
    rcases List.mem_map.1 hc with ⟨bytes, hbytes, rfl⟩
    exact hends bytes hbytes
  rcases exists_run_serial preempt hq _ hlinewise with ⟨run, hrun, hplayed, hlength⟩
  rw [List.length_map] at hlength
  refine ⟨⟨run, hrun, .of_playedAll hplayed hlength, ?_⟩,
    fun lines last => Connection.asked_ofBytes⟩
  intro earlier bytes later good bad rest hconnections hbytes hbad
  -- the two lists of connections ask for the same
  have hcut := Connection.asked_append_bad hbad good rest
  have hasked : (earlier.map Connection.ofBytes ++ good :: later.map Connection.ofBytes).flatMap
      Connection.asked = (connections.map Connection.ofBytes).flatMap Connection.asked := by
    rw [hconnections]
    simp [hbytes, hcut]
  have hcutEnds : ∀ c ∈ earlier.map Connection.ofBytes ++ good :: later.map Connection.ofBytes,
      ∀ e ∈ Connection.asked c, e.size? ≠ none := by
    intro c hc e he
    have hmem := List.mem_flatMap.2 ⟨c, hc, he⟩
    rw [hasked] at hmem
    rcases List.mem_flatMap.1 hmem with ⟨c', hc', he'⟩
    exact hlinewise c' hc' e he'
  rcases exists_run_serial preempt hq _ hcutEnds with ⟨run', hrun', hplayed', -⟩
  exact ⟨run', hrun', .of_playedAll hplayed (hasked ▸ hplayed')⟩

/-- The second line of the first connection asks for nothing, and the third one is bad. -/
theorem run_serial_two : ∃ (b : Behaviour) (run : Server.Run), b.Faultless ∧
    Server.run ⟨.serial, true⟩ [] (Queue.fresh b (Random.Generator.ofSeed 0))
      (["c{1,2,3}\r\n\ncolour\nc{7,8,9}", "c{4,5,6}"].map fun text =>
        Connection.ofBytes (Text.encode text.toList)) = some run ∧
    run.failure = none ∧
    run.queue.sink.taken.toList = Text.encode "1 2 3\n4 5 6\n".toList := by
  have hb : (Behaviour.ofTables none [] []).Faultless := Behaviour.faultless_ofTables (by simp)
  have hfirst : (Connection.ofBytes (Text.encode "c{1,2,3}\r\n\ncolour\nc{7,8,9}".toList)).asked =
      [.solid ⟨1, 2, 3⟩] := rfl
  have hsecond : (Connection.ofBytes (Text.encode "c{4,5,6}".toList)).asked =
      [.solid ⟨4, 5, 6⟩] := rfl
  have hends : ∀ bytes ∈ ["c{1,2,3}\r\n\ncolour\nc{7,8,9}", "c{4,5,6}"].map fun text =>
      Text.encode text.toList, ∀ e ∈ (Connection.ofBytes bytes).asked, e.size? ≠ none := by
    refine List.forall_mem_cons.2 ⟨?_, List.forall_mem_singleton.2 ?_⟩
    · rw [hfirst]
      exact List.forall_mem_singleton.2 (by decide)
    · rw [hsecond]
      exact List.forall_mem_singleton.2 (by decide)
  rcases run_serial true (q := Queue.fresh _ (Random.Generator.ofSeed 0)) rfl rfl _ hends with
    ⟨⟨run, hrun, hplayed, -⟩, -⟩
  have hnone := hplayed.lasts hb
  refine ⟨_, run, hb, hrun, hnone, ?_⟩
  rw [(hplayed.whole hnone).2.1, List.map_cons, List.map_cons, List.map_cons, List.map_cons,
    List.flatMap_cons, List.flatMap_cons, hfirst, hsecond]
  rfl

end Server

end Beacon
