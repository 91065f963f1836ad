import Beacon.Client
import Beacon.Proofs.Effect.Grammar
import Beacon.Proofs.Server.Serving
import Beacon.Proofs.Text.Utf8

/-!
# Transmissions that are cut

The sender checks all effects and sends each as one line; the server reads lines and plays what it
can read. However short the transmission is cut, the server plays exactly those effects that came
through whole, and they are the ones that the sender has checked (`Client.cut_plays_whole`).

1. **Lines**: a spec holds no line end and no blank, so its line is read as this spec
   (`Request.ofLine_encode`); what is left of it after a cut is never a request
   (`Request.ofLine_part`), since a spec is enclosed and so no spec begins with another one.
2. **Sending**: `Client.send` writes the lines one after the other.
3. **Cutting**: the lines before the cut, and at most a part of one (`Text.Cut`).
-/

namespace Beacon

/-! ## The lines of specs -/

theorem Effect.Written.newline_notMem {spec : List Char} {e : Effect} (h : Effect.Written spec e) :
    Sink.newline ∉ Text.encode spec := by
  have hall : Effect.alphabet.all
      (fun c => !(String.utf8EncodeChar c).contains Sink.newline) = true := by decide
  intro hmem
  rcases List.mem_flatMap.1 hmem with ⟨c, hc, hbyte⟩
  simpa [hbyte] using List.all_eq_true.1 hall c (h.subset hc)

theorem Effect.Written.ne_nil {spec : List Char} {e : Effect} (h : Effect.Written spec e) :
    spec ≠ [] := by
  rcases h.enclosed with ⟨name, body, rfl, -⟩
  simp

theorem Effect.Written.encode_ne_nil {spec : List Char} {e : Effect} (h : Effect.Written spec e) :
    Text.encode spec ≠ [] := by
  intro hnil
  have hspec := Text.decode?_encode spec
  rw [hnil] at hspec
  exact h.ne_nil (Option.some.inj (hspec.symm.trans (Text.decode?_encode [])))

namespace Request

/-- The line of a spec is a request for its effect. -/
theorem ofLine_encode {spec : List Char} {e : Effect} (h : Effect.Written spec e) :
    ofLine (Text.encode spec) = .play (String.ofList spec) e := by
  simp [ofLine, Text.trim_eq_self h.not_blank, h.ne_nil, Effect.parseTrimmed_eq_ok_iff.2 h]

/-- Part of the line of a spec is not a request: either it breaks off inside a character, or it is
a text that is not enclosed. -/
theorem ofLine_part {spec : List Char} {e : Effect} (h : Effect.Written spec e)
    {part : List UInt8} (hpart : part <+: Text.encode spec) (hne : part ≠ [])
    (hcut : part ≠ Text.encode spec) :
    ofLine part = .unreadable ∨ ∃ error, ofLine part = .refused error := by
  cases hdecode : Text.decode? part with
  | none => exact .inl (by simp [ofLine, hdecode])
  | some cs =>
    obtain rfl := Text.encode_of_decode? hdecode
    have hbegin := Text.isPrefix_of_encode hpart
    have hblank : ∀ c ∈ cs, Text.isBlank c = false := fun c hc =>
      h.not_blank c (hbegin.subset hc)
    have hsome : cs ≠ [] := by
      rintro rfl
      exact hne rfl
    cases hparse : Effect.parseTrimmed cs with
    | error error =>
      exact .inr ⟨error, by simp [ofLine, Text.trim_eq_self hblank, hsome, hparse]⟩
    | ok other =>
      have hother := (Effect.parseTrimmed_eq_ok_iff.1 hparse).enclosed
      have heq := h.enclosed.eq_of_prefix (by decide) hother hbegin
      exact absurd (congrArg Text.encode heq) hcut

end Request

/-! ## Sending -/

namespace Client

/-- The text of an effect that is sent. -/
def specOf (arg : String) : List Char := Text.trim arg.toList

theorem lineOf_eq (arg : String) : lineOf arg = Text.encode (specOf arg) ++ [Sink.newline] := by
  rw [lineOf, Text.encode_append]
  rfl

/-- A batch of effects passes the check exactly when each of them can be read. -/
theorem check_eq_ok_iff {args : List String} :
    check args = .ok () ↔ ∃ batch : List (String × Effect), args = batch.map (·.1) ∧
      ∀ p ∈ batch, Effect.parse p.1 = .ok p.2 := by
  induction args with
  | nil => exact ⟨fun _ => ⟨[], rfl, by simp⟩, fun _ => rfl⟩
  | cons arg args ih =>
    have hcons : check (arg :: args) = .ok () ↔
        (∃ e, Effect.parse arg = .ok e) ∧ check args = .ok () := by
      unfold check
      rw [List.forM_eq_forM, List.forM_cons]
      cases Effect.parse arg <;> simp [bind, Except.bind]
    rw [hcons, ih]
    constructor
    · rintro ⟨⟨e, he⟩, batch, rfl, hbatch⟩
      exact ⟨(arg, e) :: batch, rfl, List.forall_mem_cons.2 ⟨he, hbatch⟩⟩
    · rintro ⟨batch, hargs, hbatch⟩
      rcases List.map_eq_cons_iff.1 hargs.symm with ⟨p, rest, rfl, rfl, rfl⟩
      rcases List.forall_mem_cons.1 hbatch with ⟨hp, hrest⟩
      exact ⟨⟨p.2, hp⟩, rest, rfl, hrest⟩

/-- On a faultless sink all lines are sent. -/
theorem send_faultless {s : Sink} (hs : s.behaviour.Faultless) (args : List String) :
    (send s args).1 = .ok () ∧
      (send s args).2.taken.toList = s.taken.toList ++ args.flatMap lineOf := by
  induction args generalizing s with
  | nil =>
    -- only the flush is left, and it takes nothing
    have hflush := Sink.flush_faultless hs
    have htaken := s.flush_taken
    unfold send
    split
    · next s' hs' =>
      rw [hs'] at htaken
      exact ⟨rfl, by simp [← htaken]⟩
    · next e s' hs' =>
      rw [hs'] at hflush
      cases hflush
  | cons arg args ih =>
    -- a sink without faults takes the whole line, and the rest is sent to one like it
    rcases Sink.writeAll_faultless hs (lineOf arg) with ⟨hok, htaken⟩
    have hbehaviour := Sink.writeAll_behaviour s (lineOf arg)
    unfold send
    split
    · next s' hs' =>
      rw [hs'] at htaken hbehaviour
      rcases ih (s := s') (hbehaviour.symm ▸ hs) with ⟨hsent, hall⟩
      refine ⟨hsent, ?_⟩
      rw [hall, htaken, List.append_assoc, List.flatMap_cons]
    · next e s' hs' =>
      rw [hs'] at hok
      cases hok

/-! ## Cutting -/

section Batch

variable {batch : List (String × Effect)} (h : ∀ p ∈ batch, Effect.parse p.1 = .ok p.2)
include h

/-- The lines of a batch are requests for its effects, whatever comes behind them. -/
theorem requests_append (rest : Connection) :
    Connection.requests (batch.map (fun p => Text.encode (specOf p.1)) ++ rest) =
        batch.map (fun p => (String.ofList (specOf p.1), p.2)) ++ Connection.requests rest ∧
      Connection.complaint? (batch.map (fun p => Text.encode (specOf p.1)) ++ rest) =
        Connection.complaint? rest := by
  induction batch with
  | nil => exact ⟨rfl, rfl⟩
  | cons p batch ih =>
    rcases List.forall_mem_cons.1 h with ⟨hp, hbatch⟩
    have hline := Request.ofLine_encode (Effect.parseTrimmed_eq_ok_iff.1 hp)
    rcases ih hbatch with ⟨hrequests, hcomplaint⟩
    simp only [specOf, List.map_cons, List.cons_append] at hrequests hcomplaint ⊢
    exact ⟨by simp only [Connection.requests, hline, hrequests],
      by simp only [Connection.complaint?, hline, hcomplaint]⟩

/-- What a server is asked for by a transmission that is cut after `k` bytes: the effects whose
texts lie wholly before the cut. -/
theorem requests_take (k : Nat) :
    ∃ m, m ≤ batch.length ∧
      (∀ i p, batch[i]? = some p → (i < m ↔
        (((batch.take i).map (·.1)).flatMap lineOf ++ Text.encode (specOf p.1)).length ≤ k)) ∧
      (Connection.ofBytes (((batch.map (·.1)).flatMap lineOf).take k)).requests =
        (batch.take m).map (fun p => (String.ofList (specOf p.1), p.2)) ∧
      (((batch.map (·.1)).flatMap lineOf).length ≤ k → m = batch.length ∧
        (Connection.ofBytes (((batch.map (·.1)).flatMap lineOf).take k)).complaint? = none) := by
  let ls := batch.map fun p => Text.encode (specOf p.1)
  have hwritten : ∀ l ∈ ls, ∃ spec e, l = Text.encode spec ∧ Effect.Written spec e := by
    intro l hl
    rcases List.mem_map.1 hl with ⟨p, hp, rfl⟩
    exact ⟨_, p.2, rfl, Effect.parseTrimmed_eq_ok_iff.1 (h p hp)⟩
  have hnewline : ∀ l ∈ ls, Sink.newline ∉ l := by
    intro l hl
    rcases hwritten l hl with ⟨spec, e, rfl, hspec⟩
    exact hspec.newline_notMem
  have hne : ∀ l ∈ ls, l ≠ [] := by
    intro l hl
    rcases hwritten l hl with ⟨spec, e, rfl, hspec⟩
    exact hspec.encode_ne_nil
  have hbytes : ∀ batch : List (String × Effect), (batch.map (·.1)).flatMap lineOf =
      (batch.map fun p => Text.encode (specOf p.1)).flatMap (· ++ [Sink.newline]) := by
    intro batch
    simp [List.flatMap_map, funext lineOf_eq]
  -- the cut falls between two lines, or into one of them
  rcases Text.exists_cut hnewline hne k with ⟨m, tail, hcut⟩
  have hconnection : Connection.ofBytes (((batch.map (·.1)).flatMap lineOf).take k) =
      (batch.take m).map (fun p => Text.encode (specOf p.1)) ++ tail := by
    rw [hbytes, List.map_take]
    exact hcut.lines_eq
  rcases requests_append (fun p hp => h p (List.mem_of_mem_take hp)) tail with
    ⟨hrequests, hcomplaint⟩
  -- what is left of a line is no request
  have hnone : Connection.requests tail = [] := by
    rcases hcut.part with rfl | ⟨l, hl, part, rfl, hpart, hshort, hbegin⟩
    · rfl
    · rcases hwritten l hl with ⟨spec, e, rfl, hspec⟩
      rcases Request.ofLine_part hspec hbegin hpart hshort with hline | ⟨error, hline⟩ <;>
        simp [Connection.requests, hline]
  rw [hconnection]
  refine ⟨m, by simpa [ls] using hcut.le_length, ?_, ?_, ?_⟩
  · intro i p hp
    rw [hbytes, List.map_take]
    exact hcut.whole i _ (by simp [ls, hp])
  · rw [hrequests, hnone, List.append_nil]
  · intro hle
    rcases hcut.all (by rwa [hbytes] at hle) with ⟨hm, rfl⟩
    exact ⟨by simpa [ls] using hm, hcomplaint⟩

end Batch

/-- Sender and server agree, also when the transmission is cut. A batch of effects that passes the
check is sent whole to a sink that does not fail. A server that reads the first `k` of these bytes,
on an idle queue and with nothing else going on, is asked for exactly those effects whose texts lie
wholly before the cut, in their order and as the check has read them. It plays each of them from its
first frame to its last and nothing else, as `Queue.Served` says of the bytes that the light takes,
of the generator and of the journal; and without a cut this is the whole batch, and nothing is
complained about. -/
theorem cut_plays_whole (s : Server) {q : Queue} (hq : q.Idle) {b : Behaviour} (hb : b.Faultless)
    {args : List String} (hcheck : check args = .ok ())
    (hends : ∀ arg ∈ args, ∀ e, Effect.parse arg = .ok e → e.size? ≠ none) (k : Nat) :
    (send (Sink.fresh b) args).1 = .ok () ∧
    ∃ (batch : List (String × Effect)) (m : Nat) (complaint? : Option String) (run : Server.Run),
      (args = batch.map (·.1) ∧ ∀ p ∈ batch, Effect.parse p.1 = .ok p.2) ∧
      (m ≤ args.length ∧ ∀ i arg, args[i]? = some arg → (i < m ↔
        ((args.take i).flatMap lineOf ++ Text.encode (specOf arg)).length ≤ k)) ∧
      s.run [] q [Connection.ofBytes ((send (Sink.fresh b) args).2.taken.toList.take k)] =
        some run ∧
      run.failure = none ∧
      q.Served ((batch.take m).map fun p => (String.ofList (specOf p.1), p.2)) complaint?
        run.queue ∧
      ((send (Sink.fresh b) args).2.taken.size ≤ k → m = args.length ∧ complaint? = none) := by
  rcases send_faultless (s := Sink.fresh b) hb args with ⟨hsent, htaken⟩
  have hbytes : (send (Sink.fresh b) args).2.taken.toList = args.flatMap lineOf := by
    simpa [Sink.fresh] using htaken
  refine ⟨hsent, ?_⟩
  rw [hbytes, ← Array.length_toList, hbytes]
  -- what the check has read is what the server reads from the lines before the cut
  rcases check_eq_ok_iff.1 hcheck with ⟨batch, rfl, hbatch⟩
  rcases requests_take hbatch k with ⟨m, hm, hwhole, hrequests, hall⟩
  let c := Connection.ofBytes (((batch.map (·.1)).flatMap lineOf).take k)
  have hfinite : ∀ r ∈ c.requests, r.2.size? ≠ none := by
    intro r hr
    rw [show c.requests = _ from hrequests] at hr
    rcases List.mem_map.1 hr with ⟨p, hp, rfl⟩
    have hmem := List.mem_of_mem_take hp
    exact hends p.1 (List.mem_map_of_mem hmem) p.2 (hbatch p hmem)
  rcases s.run_cons hq c hfinite with ⟨q', hserved, hrun⟩
  refine ⟨batch, m, c.complaint?, _, ⟨rfl, hbatch⟩, ⟨by simpa using hm, ?_⟩, hrun [], rfl, ?_, ?_⟩
  · intro i arg harg
    rw [List.getElem?_map, Option.map_eq_some_iff] at harg
    rcases harg with ⟨p, hp, rfl⟩
    rw [← List.map_take]
    exact hwhole i p hp
  · rw [← hrequests]
    exact hserved
  · intro hle
    simpa using hall hle

/-- Of two colours the second one is cut inside its name, so only the first one is shown. -/
theorem cut_plays_first : ∃ (b : Behaviour) (run : Server.Run), b.Faultless ∧
    check [" c{1,2,3}", "color{4,5,6}\n"] = .ok () ∧
    Server.run ⟨.serial, false⟩ [] (Queue.fresh b (Random.Generator.ofSeed 0)) [Connection.ofBytes
      ((send (Sink.fresh b) [" c{1,2,3}", "color{4,5,6}\n"]).2.taken.toList.take 12)] = some run ∧
    run.queue.sink.taken.toList = Text.encode "1 2 3\n".toList := by
  have hb : (Behaviour.ofTables none [] []).Faultless := Behaviour.faultless_ofTables (by simp)
  have hcheck : check [" c{1,2,3}", "color{4,5,6}\n"] = .ok () := rfl
  have hfirst : Effect.parse " c{1,2,3}" = .ok (.solid ⟨1, 2, 3⟩) := rfl
  have hsecond : Effect.parse "color{4,5,6}\n" = .ok (.solid ⟨4, 5, 6⟩) := rfl
  have hends : ∀ arg ∈ [" c{1,2,3}", "color{4,5,6}\n"], ∀ e, Effect.parse arg = .ok e →
      e.size? ≠ none := by
    intro arg harg e he
    rcases List.mem_pair.1 harg with rfl | rfl
    · rw [hfirst] at he
      cases he
      decide
    · rw [hsecond] at he
      cases he
      decide
  rcases cut_plays_whole ⟨.serial, false⟩ (q := Queue.fresh _ (Random.Generator.ofSeed 0))
    ⟨rfl, rfl, hb⟩ hb hcheck hends 12 with
    ⟨hsent, batch, m, complaint?, run, ⟨hargs, hbatch⟩, ⟨hm, hwhole⟩, hrun, hfailure, hserved, hall⟩
  refine ⟨_, run, hb, hcheck, hrun, ?_⟩
  -- of the texts `c{1,2,3}` and `color{4,5,6}` only the first is within twelve bytes
  have hone : m = 1 := by
    have h0 := (hwhole 0 _ rfl).2 (by decide)
    have h1 := mt (hwhole 1 _ rfl).1 (by decide)
    omega
  rcases List.map_eq_cons_iff.1 hargs.symm with ⟨p, rest, rfl, hp, hrest⟩
  have heffect := hbatch p List.mem_cons_self
  rw [hp, hfirst] at heffect
  have htaken := hserved.taken
  simp only [hone, List.take_succ_cons, List.take_zero, List.map_cons, List.map_nil,
    ← Except.ok.inj heffect] at htaken
  exact htaken.trans rfl

end Client

end Beacon
