import Beacon.Proofs.Queue.Draining
import Beacon.Queue.Session

/-!
# Calls made during lines

All that a table has for some lines happens in order (`Agenda.throughout_ofTable`); so the calls of
a session that are made during some lines are made one after the other (`Call.recordAll`). What they
do to the control and to the tickets, and what they are answered, depends on the control, the
tickets and the calls alone (`Call.recordAll_congr`). The epoch counts the calls that halt
(`Call.epoch_recordAll`), and these cancel what is running (`Call.active_recordAll`).
-/

namespace Beacon

/-! ## Lines of a table -/

namespace Agenda

variable {α σ : Type} {table : List (Nat × List α)} {act : α → Panel × σ → Panel × σ}
variable {line count : Nat}

/-- What a table has for `count` lines after the line `line`, in order. -/
def listed (table : List (Nat × List α)) (line count : Nat) : List α :=
  (List.range' (line + 1) count).flatMap (entries table)

theorem listed_succ (table : List (Nat × List α)) (line count : Nat) :
    listed table line (count + 1) = entries table (line + 1) ++ listed table (line + 1) count := by
  rw [listed, List.range'_succ, List.flatMap_cons]
  rfl

theorem listed_add (table : List (Nat × List α)) (line m n : Nat) :
    listed table line (m + n) = listed table line m ++ listed table (line + m) n := by
  rw [listed, listed, listed, ← List.flatMap_append, Nat.add_right_comm line m 1,
    List.range'_append_1]

theorem mem_listed {x : α} : x ∈ listed table line count ↔
    ∃ k, 0 < k ∧ k ≤ count ∧ x ∈ entries table (line + k) := by
  rw [listed, List.mem_flatMap]
  constructor
  · rintro ⟨n, hn, hx⟩
    rw [List.mem_range'_1] at hn
    refine ⟨n - line, by omega, by omega, ?_⟩
    rwa [Nat.add_sub_cancel' (by omega)]
  · rintro ⟨k, hpos, hle, hx⟩
    exact ⟨line + k, List.mem_range'_1.2 (by omega), hx⟩

theorem listed_congr {table table' : List (Nat × List α)} {line line' : Nat}
    (h : ∀ k, 0 < k → entries table (line + k) = entries table' (line' + k)) (count : Nat) :
    listed table line count = listed table' line' count := by
  induction count generalizing line line' with
  | zero => rfl
  | succ count ih =>
    have hlater : ∀ k, 0 < k → entries table (line + 1 + k) = entries table' (line' + 1 + k) := by
      intro k hk
      rw [Nat.add_assoc, Nat.add_assoc]
      exact h (1 + k) (by omega)
    rw [listed_succ, listed_succ, h 1 Nat.one_pos, ih hlater]

/-- A table has nothing for the lines after its last one. -/
theorem entries_of_last_lt (h : (ofTable table act).last < line) : entries table line = [] := by
  have hrows : ∀ row ∈ table, row.1 ≠ line := by
    intro row hrow heq
    have hle : ∀ (rows : List (Nat × List α)), row ∈ rows →
        row.1 ≤ rows.foldr (fun row last => max row.1 last) 0 := by
      intro rows hmem
      induction rows with
      | nil => cases hmem
      | cons first rows ih =>
        rw [List.foldr_cons]
        rcases List.mem_cons.1 hmem with rfl | hmem
        · exact Nat.le_max_left _ _
        · exact Nat.le_trans (ih hmem) (Nat.le_max_right _ _)
    exact Nat.not_lt.2 (hle table hrow) (heq ▸ h)
  rw [entries, List.filter_eq_nil_iff.2 (by simpa using hrows)]
  rfl

/-- During some lines all happens that a table has for them. -/
theorem throughout_ofTable (table : List (Nat × List α)) (act : α → Panel × σ → Panel × σ)
    (line count : Nat) (x : Panel × σ) :
    (ofTable table act).throughout line count x =
      (listed table line count).foldl (fun x a => act a x) x := by
  induction count generalizing line x with
  | zero => rfl
  | succ count ih =>
    have hline : (ofTable table act).during (line + 1) x =
        (entries table (line + 1)).foldl (fun x a => act a x) x := by
      unfold during
      split
      · rfl
      · next hlast =>
        rw [entries_of_last_lt (Nat.lt_of_not_le hlast)]
        rfl
    rw [throughout, ih, hline, listed_succ, List.foldl_append]

end Agenda

/-! ## Calls -/

namespace Call

/-- Whether a call stops what is running and makes all tickets stale. -/
def halts : Call → Bool
  | ticket _ => false
  | preempt _ | interrupt | close => true

/-- A call that is made, its answer put before those to the earlier ones. -/
def record (call : Call) : Panel × Tickets × List Reply → Panel × Tickets × List Reply
  | (panel, tickets, answers) =>
    let (reply, panel, tickets) := call.perform panel tickets
    (panel, tickets, reply :: answers)

/-- Calls that are made one after the other. -/
def recordAll (calls : List Call) (x : Panel × Tickets × List Reply) :
    Panel × Tickets × List Reply :=
  calls.foldl (fun x call => call.record x) x

/-- The answers to calls, one after the other, when so many calls have halted before them. An
interrupt tells whether an effect is being played. -/
def replies (playing : Bool) : Nat → List Call → List Reply
  | _, [] => []
  | halted, ticket _ :: rest => .issued ⟨.ofNat halted⟩ :: replies playing halted rest
  | halted, preempt _ :: rest => .issued ⟨.ofNat (halted + 1)⟩ :: replies playing (halted + 1) rest
  | halted, interrupt :: rest => .running playing :: replies playing (halted + 1) rest
  | halted, close :: rest => .done :: replies playing (halted + 1) rest

variable {x y : Panel × Tickets × List Reply}

@[simp] theorem recordAll_nil (x : Panel × Tickets × List Reply) : recordAll [] x = x := rfl

@[simp] theorem recordAll_cons (call : Call) (calls : List Call)
    (x : Panel × Tickets × List Reply) :
    recordAll (call :: calls) x = recordAll calls (call.record x) := rfl

/-- What a call does to the control. -/
theorem control_record (call : Call) (x : Panel × Tickets × List Reply) :
    (call.record x).1.control = match call with
      | ticket _ => x.1.control
      | preempt _ | interrupt => x.1.control.interrupt
      | close => x.1.control.close := by
  cases call with
  | preempt name =>
    show (x.1.preempt).2.control = x.1.control.interrupt
    rw [Panel.preempt]
    split <;> rfl
  | _ => rfl

/-- What a call does to the tickets, and its answer. -/
theorem rest_record (call : Call) (x : Panel × Tickets × List Reply) :
    (call.record x).2 = match call with
      | ticket name =>
        ((name, x.1.control.ticket) :: x.2.1, .issued x.1.control.ticket :: x.2.2)
      | preempt name =>
        ((name, x.1.control.interrupt.ticket) :: x.2.1,
          .issued x.1.control.interrupt.ticket :: x.2.2)
      | interrupt => (x.2.1, .running x.1.control.running :: x.2.2)
      | close => (x.2.1, .done :: x.2.2) := by
  cases call <;> rfl

/-- What calls come to depends on the control, the tickets and the answers before them. -/
theorem recordAll_congr (hcontrol : x.1.control = y.1.control) (hrest : x.2 = y.2)
    (calls : List Call) :
    (recordAll calls x).1.control = (recordAll calls y).1.control ∧
      (recordAll calls x).2 = (recordAll calls y).2 := by
  induction calls generalizing x y with
  | nil => exact ⟨hcontrol, hrest⟩
  | cons call calls ih =>
    apply ih
    · rw [control_record, control_record, hcontrol]
    · rw [rest_record, rest_record, hcontrol, hrest]

/-- Each call that halts begins an epoch. -/
theorem epoch_recordAll (calls : List Call) (x : Panel × Tickets × List Reply) :
    (recordAll calls x).1.control.epoch = x.1.control.epoch + .ofNat (calls.countP halts) := by
  induction calls generalizing x with
  | nil => simp
  | cons call calls ih =>
    rw [recordAll_cons, ih, control_record, List.countP_cons, Nat.add_comm, UInt64.ofNat_add]
    cases call <;> simp [halts, Control.close, UInt64.add_assoc]

/-- A queue that has been closed stays closed. -/
theorem closed_recordAll (calls : List Call) (x : Panel × Tickets × List Reply) :
    (recordAll calls x).1.control.closed = (x.1.control.closed || decide (close ∈ calls)) := by
  induction calls generalizing x with
  | nil => simp
  | cons call calls ih =>
    rw [recordAll_cons, ih, control_record]
    cases call <;> simp

/-- Calls cancel what is running if one of them halts it. -/
theorem active_recordAll (calls : List Call) (x : Panel × Tickets × List Reply) :
    (recordAll calls x).1.control.active =
      if calls.any halts then x.1.control.active.map Token.cancel else x.1.control.active := by
  induction calls generalizing x with
  | nil => rfl
  | cons call calls ih =>
    have hcancel : ∀ token : Option Token,
        (token.map Token.cancel).map Token.cancel = token.map Token.cancel := by
      intro token
      cases token <;> simp [Token.cancel_of_cancelled]
    rw [recordAll_cons, ih, control_record, List.any_cons]
    cases call <;>
      simp [halts, Control.interrupt, Control.close, Control.bump, Control.cancelActive, hcancel]

/-- Calls are answered as it is known how many have halted before them. -/
theorem replies_recordAll {halted : Nat} (hepoch : x.1.control.epoch = .ofNat halted)
    (calls : List Call) :
    (recordAll calls x).2.2 = (replies x.1.control.running halted calls).reverse ++ x.2.2 := by
  induction calls generalizing halted x with
  | nil => rfl
  | cons call calls ih =>
    have hrunning : (call.record x).1.control.running = x.1.control.running := by
      rw [control_record]
      cases call <;>
        simp [Control.running, Control.interrupt, Control.close, Control.bump,
          Control.cancelActive]
    have hone := epoch_recordAll [call] x
    rw [recordAll_cons, recordAll_nil, hepoch, ← UInt64.ofNat_add] at hone
    rw [recordAll_cons, ih hone, hrunning, rest_record]
    cases call <;> simp [replies, halts, Control.ticket, hepoch, UInt64.ofNat_add]

end Call

/-- The calls of an agenda are made in order. -/
theorem Session.throughout_agenda (table : List (Nat × List Call)) (line count : Nat)
    (x : Panel × Tickets × List Reply) :
    (agenda table).throughout line count x =
      Call.recordAll (Agenda.listed table line count) x :=
  Agenda.throughout_ofTable table _ line count x

end Beacon
