import Beacon.Proofs.Scene.Blocks

/-!
# Seeds

The jitter of an effect is seeded when it is started, with the next number from the generator of the
queue, and nothing else is ever drawn from that. So in every run the effect that is the `n`-th to be
started has the `n`-th seed, whatever was played, skipped, interrupted or lost before it
(`Run.performed`). Two runs are compared through this fact about each of them: where they start the
same effect at the same position, its frames are the same (`Run.burns_alike`).

1. **Performances**: the effects that a run has started, with the lines that were handed to the
   light for each of them (`performances`).
2. **Positions**: the seed and the lines of a performance by its position (`Performed`).
-/

namespace Beacon

/-- The generator after `n` seeds have been drawn from it. -/
def Random.Generator.drawn (g : Random.Generator) : Nat → Random.Generator
  | 0 => g
  | n + 1 => (g.drawn n).wide.2

/-- The effect that the one who has the queue is playing, or has played. -/
def Play.show? : Play → Option Show
  | on w _ | done (.played w _) => some w
  | _ => none

/-- The lines of fewer frames are the first of those of more. -/
theorem Show.lines_prefix (w : Show) {m m' : Nat} (h : m ≤ m') : w.lines m <+: w.lines m' := by
  obtain ⟨k, rfl⟩ := Nat.exists_eq_add_of_le h
  unfold Show.lines
  rw [← w.source.take_take_add m k]
  exact (List.take_prefix m _).map _

namespace Scene

variable {ι : Type} {s s' : Scene ι} {i : ι} {ev : Event ι} {events : List (Event ι)}
variable {lines : List (List UInt8)} {g : Random.Generator}

/-! ## Performances -/

/-- A performance: what was started, and the lines that were handed to the light for it, the last of
them perhaps in vain. -/
abbrev Performance := Show × List (List UInt8)

/-- What a run tells of its performances: those that were reported, and the lines that were handed
to the light since the queue was got last. -/
structure Chronicle where
  reported : List Performance
  lines : List (List UInt8)

/-- The chronicle after one more event. -/
def Chronicle.add (c : Chronicle) : Event ι → Chronicle
  | .took _ _ => { c with lines := [] }
  | .left _ (.played w _) => { c with reported := c.reported ++ [(w, c.lines)] }
  | ev => { c with lines := c.lines ++ ev.line?.toList }

/-- The chronicle of a run. -/
def chronicle (events : List (Event ι)) : Chronicle := events.foldl Chronicle.add ⟨[], []⟩

/-- The effects that a run has started, in the order in which it started them; the last may still be
under way. -/
def performances (events : List (Event ι)) (s : Scene ι) : List Performance :=
  (chronicle events).reported ++
    ((s.desk.bind fun d => d.2.show?).map fun w => (w, (chronicle events).lines)).toList

@[simp] theorem chronicle_concat (events : List (Event ι)) (ev : Event ι) :
    chronicle (events ++ [ev]) = (chronicle events).add ev :=
  List.foldl_concat ..

/-! ## Positions -/

/-- A performance that was the `n`-th to start: it has the `n`-th relay and the `n`-th seed, and the
lines handed to the light are those of its first frames. -/
structure Performed (g : Random.Generator) (n : Nat) (p : Performance) : Prop where
  relay : p.1.relay = n
  seed : p.1.seed = (g.drawn n).wide.1
  lines : ∃ m, p.2 = p.1.lines m

/-- So many effects have been started, and each of them drew from the generator. -/
structure Started (g : Random.Generator) (n : Nat) (s : Scene ι) : Prop where
  born : s.born = n
  generator : s.generator = g.drawn n

end Scene

/-- The lines that the one who has the queue has handed to the light by this point: none before an
effect is started, then one for each frame that was shown, and perhaps one more that could not be
written. -/
def Play.Handed (lines : List (List UInt8)) : Play → Prop
  | ask _ | checkClosed _ _ | checkEpoch _ _ | start _ _ => lines = []
  | on w (.clear _) | on w (.drop _) | on w (.dropRouse _) | on w (.deafen _)
  | done (.played w _) => ∃ m, lines = w.lines m
  | on w _ => lines = w.lines w.shown
  | _ => True

/-- What was handed to the light for an effect are the lines of its first frames. -/
theorem Play.Handed.exists_lines {p : Play} {lines : List (List UInt8)} {w : Show}
    (h : p.Handed lines) (hw : p.show? = some w) : ∃ m, lines = w.lines m := by
  cases p with
  | on w' ph =>
    rcases Option.some.inj hw with rfl
    cases ph with
    | clear | drop | dropRouse | deafen => exact h
    | _ => exact ⟨_, h⟩
  | done report =>
    cases report with
    | played w' result =>
      rcases Option.some.inj hw with rfl
      exact h
    | _ => cases hw
  | _ => cases hw

namespace Scene

variable {ι : Type} {s s' : Scene ι} {i : ι} {ev : Event ι} {events : List (Event ι)}
variable {lines : List (List UInt8)} {g : Random.Generator}

/-- A performance after some others has the next position. -/
theorem performed_concat {ps : List Performance} {q : Performance}
    (hps : ∀ n p, ps[n]? = some p → Performed g n p) (hq : Performed g ps.length q) :
    ∀ n p, (ps ++ [q])[n]? = some p → Performed g n p := by
  intro n p hp
  rw [List.getElem?_append] at hp
  split at hp
  · exact hps n p hp
  · next hge =>
    cases hn : n - ps.length with
    | zero =>
      rw [hn] at hp
      rcases Option.some.inj hp with rfl
      have hlength : n = ps.length := by omega
      exact hlength ▸ hq
    | succ k =>
      rw [hn] at hp
      cases hp

/-- Between getting the queue and leaving it, a thread adds lines to the chronicle, and nothing
else. -/
theorem Turn.chronicle_add {p p' : Play} (h : Turn i s p ev s' p') (c : Chronicle) :
    c.add ev = { c with lines := c.lines ++ ev.line?.toList } := by
  cases h <;> rfl

/-- Whether a line can be written or not, it is that of the next frame. -/
theorem Turn.handed {p p' : Play} (h : Turn i s p ev s' p')
    (hfits : ∀ w ph, p = .on w ph → ph.Fits w (s.relays w.relay)) (hp : p.Handed lines) :
    p'.Handed (lines ++ ev.line?.toList) := by
  have hnext : ∀ w frame, p = .on w (.write frame) →
      lines ++ [frame.color.lineBytes] = w.lines (w.shown + 1) := by
    rintro w frame rfl
    have hlines : lines = w.lines w.shown := hp
    rcases hfits w _ rfl with ⟨-, hframe⟩
    rw [hlines, Show.lines, Show.lines, hframe, List.map_append, List.map_singleton]
  cases h with
  | @write w frame hw => exact hnext w frame rfl
  | @writeFails w frame error hw => exact ⟨_, hnext w frame rfl⟩
  | @start t e =>
    have hnone : lines = [] := hp
    rw [hnone]
    rfl
  | @judgeCancelled w ht | @judgeOn w ht => exact ⟨w.shown, (List.append_nil _).trans hp⟩
  | black | blackFails => trivial
  | refuseClosed | refuseEpoch => trivial
  | _ => simpa [Event.line?, Play.Handed] using hp

/-- Only starting an effect draws from the generator. What is started has the next relay and the
seed that was drawn, and keeps them while it is played. -/
theorem Turn.seed_cases {p p' : Play} (h : Turn i s p ev s' p') :
    (∃ t e, p = .start t e ∧ p' = .on (s.opening t e) .enroll ∧ s'.born = s.born + 1 ∧
      s'.generator = s.generator.wide.2) ∨
    s'.born = s.born ∧ s'.generator = s.generator ∧
      p'.show?.map (fun w => (w.relay, w.seed)) = p.show?.map fun w => (w.relay, w.seed) := by
  cases h with
  | @start t e => exact .inl ⟨t, e, rfl, rfl, rfl, rfl⟩
  | _ => exact .inr ⟨rfl, rfl, rfl⟩

/-- What the chronicle of a run says of the effects that were started in it: those that were
reported stand at their positions, and the one that is being played has the next. -/
structure Recorded (g : Random.Generator) (events : List (Event ι)) (s : Scene ι) : Prop where
  reported : ∀ n p, (chronicle events).reported[n]? = some p → Performed g n p
  between : s.desk.bind (·.2.show?) = none → Started g (chronicle events).reported.length s
  playing : ∀ i p w, s.desk = some (i, p) → p.show? = some w →
    Performed g (chronicle events).reported.length (w, (chronicle events).lines) ∧
      Started g ((chronicle events).reported.length + 1) s
  handed : ∀ i p, s.desk = some (i, p) → p.Handed (chronicle events).lines

variable [DecidableEq ι]

omit [DecidableEq ι] in
theorem Recorded.turn {p p' : Play} (h : Recorded g events s) (hs : Supplied s)
    (hdesk : s.desk = some (i, p)) (ht : Turn i s p ev s' p') :
    Recorded g (events ++ [ev]) { s' with desk := some (i, p') } := by
  have hfits : ∀ w ph, p = .on w ph → ph.Fits w (s.relays w.relay) := by
    rintro w ph rfl
    exact hs i w ph hdesk
  have hhanded := ht.handed hfits (h.handed i p hdesk)
  have hbetween : p.show? = none → Started g (chronicle events).reported.length s := by
    intro hnone
    apply h.between
    rw [hdesk]
    exact hnone
  constructor
  · simpa [ht.chronicle_add] using h.reported
  · -- between two effects: a turn that starts none leaves the generator and the relays alone
    intro hnone
    have hnone : p'.show? = none := hnone
    rcases ht.seed_cases with ⟨t, e, -, rfl, -⟩ | ⟨hborn, hgenerator, hshow⟩
    · cases hnone
    · rw [hnone, Option.map_none, eq_comm, Option.map_eq_none_iff] at hshow
      rcases hbetween hshow with ⟨hborn', hgenerator'⟩
      rw [chronicle_concat, ht.chronicle_add]
      exact ⟨hborn.trans hborn', hgenerator.trans hgenerator'⟩
  · intro j q w hd hw
    rcases desk_inj hd with ⟨rfl, rfl⟩
    rw [chronicle_concat, ht.chronicle_add]
    have hlines := hhanded.exists_lines hw
    -- an effect starts with this turn, with the next seed and the next relay; or it has been played
    -- before, and goes on with the seed and the relay that it has
    rcases ht.seed_cases with ⟨t, e, rfl, rfl, hborn, hgenerator⟩ | ⟨hborn, hgenerator, hshow⟩
    · rcases Option.some.inj hw with rfl
      rcases hbetween rfl with ⟨hborn', hgenerator'⟩
      refine ⟨⟨hborn', congrArg (·.wide.1) hgenerator', hlines⟩, ?_, ?_⟩
      · exact hborn.trans (congrArg Nat.succ hborn')
      · exact hgenerator.trans (congrArg (·.wide.2) hgenerator')
    · rw [hw, Option.map_some, eq_comm, Option.map_eq_some_iff] at hshow
      rcases hshow with ⟨v, hv, hsame⟩
      rcases Prod.mk.inj hsame with ⟨hrelay, hseed⟩
      rcases h.playing i p v hdesk hv with ⟨hperformed, hborn', hgenerator'⟩
      refine ⟨⟨?_, ?_, hlines⟩, hborn.trans hborn', hgenerator.trans hgenerator'⟩
      · exact hrelay.symm.trans hperformed.relay
      · exact hseed.symm.trans hperformed.seed
  · intro j q hd
    rcases desk_inj hd with ⟨rfl, rfl⟩
    rw [chronicle_concat, ht.chronicle_add]
    exact hhanded

theorem Recorded.step (h : Recorded g events s) (hs : Supplied s) (hstep : Step s ev s') :
    Recorded g (events ++ [ev]) s' := by
  -- a step that neither changes who has the queue nor starts an effect
  have hstays : s'.desk = s.desk → s'.born = s.born → s'.generator = s.generator →
      (chronicle events).add ev = chronicle events → Recorded g (events ++ [ev]) s' := by
    intro hdesk hborn hgenerator hadd
    rw [← chronicle_concat] at hadd
    constructor
    · rw [hadd]
      exact h.reported
    · rw [hadd, hdesk]
      intro hnone
      exact ⟨hborn.trans (h.between hnone).born, hgenerator.trans (h.between hnone).generator⟩
    · rw [hadd, hdesk]
      intro i p w hd hw
      rcases h.playing i p w hd hw with ⟨hperformed, hborn', hgenerator'⟩
      exact ⟨hperformed, hborn.trans hborn', hgenerator.trans hgenerator'⟩
    · rw [hadd, hdesk]
      exact h.handed
  cases hstep with
  | @take i job hd hq =>
    -- whoever gets the queue has not started anything yet
    have hfirst : job.first.show? = none := by cases job <;> rfl
    have hbetween : Started g (chronicle events).reported.length s := h.between (by simp [hq])
    constructor
    · simpa [Chronicle.add] using h.reported
    · intro _
      rw [chronicle_concat]
      exact ⟨hbetween.born, hbetween.generator⟩
    · intro j p w hdesk hw
      rcases desk_inj hdesk with ⟨rfl, rfl⟩
      rw [hfirst] at hw
      cases hw
    · intro j p hdesk
      rcases desk_inj hdesk with ⟨rfl, rfl⟩
      rw [chronicle_concat]
      cases job <;> trivial
  | turn hq ht => exact h.turn hs hq ht
  | @leave i report hq =>
    have hnobody : ∀ (j : ι) (p : Play), (none : Option (ι × Play)) ≠ some (j, p) :=
      fun _ _ hnone => by cases hnone
    cases report with
    | @played w result =>
      -- the performance that was under way is reported
      rcases h.playing i _ w hq rfl with ⟨hperformed, hborn, hgenerator⟩
      refine ⟨?_, ?_, fun j p _ hdesk => absurd hdesk (hnobody j p),
        fun j p hdesk => absurd hdesk (hnobody j p)⟩
      · rw [chronicle_concat]
        exact performed_concat h.reported hperformed
      · intro _
        rw [chronicle_concat, Chronicle.add, List.length_append, List.length_singleton]
        exact ⟨hborn, hgenerator⟩
    | _ =>
      -- nothing was performed: the queue is as it was between two effects
      have hbetween : Started g (chronicle events).reported.length s := by
        apply h.between
        rw [hq]
        rfl
      refine ⟨?_, ?_, fun j p _ hdesk => absurd hdesk (hnobody j p),
        fun j p hdesk => absurd hdesk (hnobody j p)⟩
      · simpa [Chronicle.add] using h.reported
      · intro _
        rw [chronicle_concat]
        exact ⟨hbetween.born, hbetween.generator⟩
  | _ => exact hstays rfl rfl rfl (by simp [Chronicle.add, Event.line?])

theorem Run.recorded {b : Behaviour} (hrun : Run (fresh b g) events s) : Recorded g events s := by
  induction hrun with
  | refl =>
    refine ⟨fun n p hnone => ?_, fun _ => ⟨rfl, rfl⟩, fun i p w hnone => ?_, fun i p hnone => ?_⟩
    all_goals cases hnone
  | step hrun hstep ih => exact ih.step hrun.supplied hstep

/-- In every run the effect that is the `n`-th to be started has the `n`-th seed, and no other
effect was started. -/
theorem Run.performed {b : Behaviour} (hrun : Run (fresh b g) events s) :
    (performances events s).length = s.born ∧
      ∀ n p, (performances events s)[n]? = some p → Performed g n p := by
  have h := hrun.recorded
  unfold performances
  cases hshow : s.desk.bind (·.2.show?) with
  | none =>
    refine ⟨?_, by simpa using h.reported⟩
    rw [(h.between hshow).born]
    simp
  | some w =>
    rcases Option.bind_eq_some_iff.1 hshow with ⟨⟨i, p⟩, hdesk, hw⟩
    rcases h.playing i p w hdesk hw with ⟨hperformed, hstarted⟩
    refine ⟨?_, performed_concat h.reported hperformed⟩
    rw [hstarted.born]
    simp

omit [DecidableEq ι] in
/-- Only a fire looks at the seed. -/
theorem source_eq_of_kind {e : Effect} (h : e.kind ≠ .fire) (d d' : Random.Generator) :
    e.source d = e.source d' := by
  cases e with
  | fire p => exact absurd rfl h
  | _ => rfl

/-- Which frames an effect has depends on nothing but the effect and, if it is a fire, on the
generator that the queue had at first and on how many effects were started before it. So the lines
of the same fire at the same position of two runs are the first ones of the same lines, whatever
else happens in the two, and those of any other effect are so at any positions. -/
theorem Run.burns_alike {κ : Type} [DecidableEq κ] {b b' : Behaviour} {g' : Random.Generator}
    {events' : List (Event κ)} {t : Scene κ} (hrun : Run (fresh b g) events s)
    (hrun' : Run (fresh b' g') events' t) (n n' : Nat) {w w' : Show} {ls ls' : List (List UInt8)}
    (h : (performances events s)[n]? = some (w, ls))
    (h' : (performances events' t)[n']? = some (w', ls')) (heffect : w.effect = w'.effect)
    (halike : w.effect.kind ≠ .fire ∨ n = n' ∧ g = g') :
    w.source = w'.source ∧ (ls <+: ls' ∨ ls' <+: ls) := by
  rcases hrun.performed.2 n _ h with ⟨-, hseed, m, hlines⟩
  rcases hrun'.performed.2 n' _ h' with ⟨-, hseed', m', hlines'⟩
  have hsource : w.source = w'.source := by
    unfold Show.source
    rcases halike with hkind | ⟨rfl, rfl⟩
    · rw [← heffect]
      exact source_eq_of_kind hkind _ _
    · rw [← heffect, hseed, hseed']
  have hlines : ls = w.lines m := hlines
  have hlines' : ls' = w.lines m' := by
    rw [Show.lines, hsource]
    exact hlines'
  rw [hlines, hlines']
  exact ⟨hsource, (Nat.le_total m m').imp w.lines_prefix w.lines_prefix⟩

/-- The same fire is the second effect that two queues start, on different lights: after a colour
that was interrupted and a flash that was skipped, and after a flash that was interrupted. -/
theorem Run.burns_alike_second :
    ∃ (events events' : List (Event Nat)) (s t : Scene Nat) (w w' : Show),
    Run (fresh (Behaviour.ofTables none [] []) (Random.Generator.ofSeed 3)) events s ∧
    Run (fresh (Behaviour.ofTables (some 1) [] []) (Random.Generator.ofSeed 3)) events' t ∧
    (performances events s)[1]? = some (w, []) ∧ (performances events' t)[1]? = some (w', []) ∧
    w.effect.kind = .fire ∧ w.source = w'.source := by
  let g := Random.Generator.ofSeed 3
  let fire := Effect.fire ⟨⟨1000⟩, Color.black, 7⟩
  let flash := Effect.flash ⟨⟨1⟩, Color.black, 3⟩
  let solid := Effect.solid Color.black
  have hrun := Run.of_perform (s := fresh (Behaviour.ofTables none [] []) g)
    (.ticket 2 :: .request 0 (.push solid) :: Move.steps 0 5 ++ .call 1 .interrupt ::
      Move.steps 1 4 ++ Move.steps 0 13 ++ .request 2 (.pushWith ⟨0⟩ flash) :: Move.steps 2 4 ++
      .request 0 (.push fire) :: Move.steps 0 5)
    [.issued 2 ⟨0⟩, .quiet, .took 0 (.push solid), .quiet, .quiet, .quiet, .quiet, .quiet,
      .drew 1 1, .quiet, .quiet, .returned 1 .interrupt 1, .quiet, .quiet, .quiet, .quiet,
      .aborted 0 ⟨0⟩ 0, .quiet, .quiet, .judged 0 0 true, .quiet, .quiet, .quiet, .quiet,
      .left 0 (.played ⟨⟨0⟩, solid, g.wide.1, 0, 0⟩ (.ok (.interrupted 0))),
      .quiet, .took 2 (.pushWith ⟨0⟩ flash), .quiet, .quiet, .left 2 (.skipped ⟨0⟩ flash),
      .quiet, .took 0 (.push fire), .quiet, .quiet, .quiet, .quiet] rfl
  have hrun' := Run.of_perform (s := fresh (Behaviour.ofTables (some 1) [] []) g)
    (.request 5 (.push flash) :: Move.steps 5 5 ++ .call 4 .interrupt :: Move.steps 4 4 ++
      Move.steps 5 13 ++ .request 6 (.push fire) :: Move.steps 6 5)
    [.quiet, .took 5 (.push flash), .quiet, .quiet, .quiet, .quiet, .quiet, .drew 4 1, .quiet,
      .quiet, .returned 4 .interrupt 1, .quiet, .quiet, .quiet, .quiet, .aborted 5 ⟨0⟩ 0, .quiet,
      .quiet, .judged 5 0 true, .quiet, .quiet, .quiet, .quiet,
      .left 5 (.played ⟨⟨0⟩, flash, g.wide.1, 0, 0⟩ (.ok (.interrupted 0))),
      .quiet, .took 6 (.push fire), .quiet, .quiet, .quiet, .quiet] rfl
  have hsecond := burns_alike hrun hrun' 1 1 rfl rfl rfl (.inr ⟨rfl, rfl⟩)
  exact ⟨_, _, _, _, _, _, hrun, hrun', rfl, rfl, rfl, hsecond.1⟩

end Scene

end Beacon
