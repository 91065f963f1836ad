import Beacon.Proofs.Source.Size
import Beacon.Queue
import Mathlib.Logic.Relation

/-!
# Relays

How the frames of an effect pass from the one who composes them to the one who shows them: through a
slot with room for one frame, under a token that both of them watch. Each of the two goes on by
itself, so composing is a relation between relays, one atomic step at a time.

* `Relay.Compose`: what the composer can do next.
* `Relay.Supplies`: the frames that were received, those under way and those still to be composed
  are together the frames of the effect, in order. Every step of the composer, every change of the
  token and every reception keeps it.
* `Relay.Supplies.size?_eq_of_over`: a composer that is gone leaves the slot empty only if all
  frames were received, or the token was cancelled.
-/

namespace Beacon

/-! ## Tokens by halves -/

namespace Token

/-- The first half of a cancellation: the flag is raised. -/
def raise (t : Token) : Token := { t with cancelled := true }

/-- The second half: a wake-up is left in the slot, which has room for one. -/
def rouse (t : Token) : Token := { t with wake := true }

/-- A sleep that is cut short takes the wake-up out of the slot. -/
def settle (t : Token) : Token := { t with wake := false }

@[simp] theorem cancelled_raise (t : Token) : t.raise.cancelled = true := rfl
@[simp] theorem wake_raise (t : Token) : t.raise.wake = t.wake := rfl
@[simp] theorem cancelled_rouse (t : Token) : t.rouse.cancelled = t.cancelled := rfl
@[simp] theorem wake_rouse (t : Token) : t.rouse.wake = true := rfl
@[simp] theorem cancelled_settle (t : Token) : t.settle.cancelled = t.cancelled := rfl
@[simp] theorem wake_settle (t : Token) : t.settle.wake = false := rfl

/-- Cancelling is raising the flag and then leaving the wake-up, unless the flag is up already. -/
theorem cancel_eq (t : Token) : t.cancel = if t.cancelled then t else t.raise.rouse := by
  cases t with
  | mk cancelled wake => cases cancelled <;> rfl

end Token

/-! ## The relay and its composer -/

/-- The one who composes the frames of an effect: the source is still to be asked for the next
frame, or a frame waits for room in the slot, or all is over. -/
inductive Composer
  | asking (source : Source Random.Generator)
  | sending (frame : Frame) (rest : Source Random.Generator)
  | gone

namespace Composer

/-- The frame that the composer has in hand. -/
def held : Composer → List Frame
  | sending frame _ => [frame]
  | _ => []

/-- Whether `rest` is what the composer has still to compose. One who is gone has stopped because
the token was cancelled, or because there was nothing left. -/
def Leaves (rest : Source Random.Generator) (t : Token) : Composer → Prop
  | asking source => source = rest
  | sending _ after => after = rest
  | gone => t.cancelled = true ∨ rest.next = none

end Composer

/-- What the composer and the player of an effect share: the token, the slot, and whether anyone
still listens at the slot. -/
structure Relay where
  token : Token
  slot : Option Frame
  composer : Composer
  heard : Bool

namespace Relay

/-- The relay of an effect when it starts. A single colour is put into the slot right away; for all
other effects a composer sets to work. -/
def ofEffect (e : Effect) (seed : UInt64) : Relay :=
  match e with
  | .solid color => ⟨Token.fresh, some ⟨color, Duration.zero⟩, .gone, true⟩
  | e => ⟨Token.fresh, none, .asking (e.source (Random.Generator.ofSeed seed)), true⟩

@[simp] theorem token_ofEffect (e : Effect) (seed : UInt64) :
    (ofEffect e seed).token = Token.fresh := by
  cases e <;> rfl

/-- The relay of an effect whose jitter comes from a given generator. -/
def withGenerator (e : Effect) (g : Random.Generator) : Relay :=
  match e with
  | .solid color => ⟨Token.fresh, some ⟨color, Duration.zero⟩, .gone, true⟩
  | e => ⟨Token.fresh, none, .asking (e.source g), true⟩

theorem ofEffect_eq (e : Effect) (seed : UInt64) :
    ofEffect e seed = withGenerator e (Random.Generator.ofSeed seed) := by
  cases e <;> rfl

/-- The relay with another token. -/
def onToken (f : Token → Token) (r : Relay) : Relay := { r with token := f r.token }

/-- The relay after the frame in the slot was received. -/
def emptied (r : Relay) : Relay := { r with slot := none }

/-- The relay after its receiving end was given up. -/
def deafened (r : Relay) : Relay := { r with heard := false }

/-- One step of the composer. The flag is looked at when a frame is ready; the frame is put into the
slot later, when there is room. The composer goes when there is no further frame, when the flag is
up, and when nobody listens any more. -/
inductive Compose : Relay → Relay → Prop
  | ended {r : Relay} {source : Source Random.Generator} (hc : r.composer = .asking source)
      (hn : source.next = none) : Compose r { r with composer := .gone }
  | stopped {r : Relay} {source rest : Source Random.Generator} {frame : Frame}
      (hc : r.composer = .asking source) (hn : source.next = some (frame, rest))
      (ht : r.token.cancelled = true) : Compose r { r with composer := .gone }
  | offer {r : Relay} {source rest : Source Random.Generator} {frame : Frame}
      (hc : r.composer = .asking source) (hn : source.next = some (frame, rest))
      (ht : r.token.cancelled = false) : Compose r { r with composer := .sending frame rest }
  | send {r : Relay} {rest : Source Random.Generator} {frame : Frame}
      (hc : r.composer = .sending frame rest) (hs : r.slot = none) (hh : r.heard = true) :
      Compose r { r with slot := some frame, composer := .asking rest }
  | unheard {r : Relay} {rest : Source Random.Generator} {frame : Frame}
      (hc : r.composer = .sending frame rest) (hh : r.heard = false) :
      Compose r { r with composer := .gone }

/-- The composer never touches the token. -/
theorem Compose.token_eq {r r' : Relay} (h : Compose r r') : r'.token = r.token := by
  cases h <;> rfl

/-- Whether anyone listens is not for the composer to say. -/
theorem Compose.heard_eq {r r' : Relay} (h : Compose r r') : r'.heard = r.heard := by
  cases h <;> rfl

/-- The composer changes the slot only by putting a frame into it, while somebody listens. -/
theorem Compose.slot_eq {r r' : Relay} (h : Compose r r') (hs : r'.slot ≠ r.slot) :
    r.slot = none ∧ (∃ frame, r'.slot = some frame) ∧ r.heard = true := by
  cases h with
  | send hc hs' hh => exact ⟨hs', ⟨_, rfl⟩, hh⟩
  | _ => exact absurd rfl hs

/-- A composer that has gone does nothing more. -/
theorem Compose.composer_ne_gone {r r' : Relay} (h : Compose r r') : r.composer ≠ .gone := by
  cases h <;> simp [*]

/-! ## What a composer can do -/

/-- A relay whose composer has what is left of a source still to compose, or has put the last frame
of it into the slot, or has nothing left. -/
def Ready (source : Source Random.Generator) (r : Relay) : Prop :=
  r.heard = true ∧
    (r.composer = .asking source ∧ r.slot = none ∨
      r.composer = .gone ∧ r.slot = none ∧ source.next = none ∨
      r.composer = .gone ∧ ∃ frame rest, r.slot = some frame ∧ source.next = some (frame, rest) ∧
        rest.next = none)

theorem ready_withGenerator (e : Effect) (g : Random.Generator) :
    (withGenerator e g).Ready (e.source g) := by
  cases e with
  | solid color => exact ⟨rfl, Or.inr (Or.inr ⟨rfl, _, _, rfl, rfl, rfl⟩)⟩
  | _ => exact ⟨rfl, Or.inl ⟨rfl, rfl⟩⟩

theorem ready_ofEffect (e : Effect) (seed : UInt64) :
    (ofEffect e seed).Ready (e.source (Random.Generator.ofSeed seed)) := by
  rw [ofEffect_eq]
  exact ready_withGenerator e _

section Ready

open Relation (ReflTransGen)

variable {r : Relay} {source rest : Source Random.Generator} {frame : Frame}

/-- The composer puts the next frame into the slot. -/
theorem Ready.exists_offer (hready : r.Ready source) (ht : r.token.cancelled = false)
    (hnext : source.next = some (frame, rest)) :
    ∃ r', ReflTransGen Compose r r' ∧ r'.slot = some frame ∧ r'.token = r.token ∧
      r'.emptied.Ready rest := by
  rcases hready with ⟨hheard, ⟨hc, hs⟩ | ⟨hc, hs, hn⟩ | ⟨hc, last, after, hs, hn, hend⟩⟩
  · have hsend : Compose { r with composer := .sending frame rest }
        { r with slot := some frame, composer := .asking rest } := .send rfl hs hheard
    exact ⟨_, (ReflTransGen.single (.offer hc hnext ht)).tail hsend, rfl, rfl, hheard,
      Or.inl ⟨rfl, rfl⟩⟩
  · rw [hnext] at hn
    cases hn
  · rcases Prod.mk.inj (Option.some.inj (hnext.symm.trans hn)) with ⟨rfl, rfl⟩
    exact ⟨r, .refl, hs, rfl, hheard, Or.inr (Or.inl ⟨hc, rfl, hend⟩)⟩

/-- The composer of a source that has nothing left goes. -/
theorem Ready.exists_over (hready : r.Ready source) (hnext : source.next = none) :
    ∃ r', ReflTransGen Compose r r' ∧ r'.slot = none ∧ r'.composer = .gone ∧
      r'.token = r.token ∧ r'.Ready source := by
  rcases hready with ⟨hheard, ⟨hc, hs⟩ | ⟨hc, hs, hn⟩ | ⟨hc, last, after, hs, hn, hend⟩⟩
  · exact ⟨_, .single (.ended hc hnext), hs, rfl, rfl, hheard, Or.inr (Or.inl ⟨rfl, hs, hnext⟩)⟩
  · exact ⟨r, .refl, hs, hc, rfl, hheard, Or.inr (Or.inl ⟨hc, hs, hn⟩)⟩
  · rw [hnext] at hn
    cases hn

end Ready

/-! ## What a relay supplies -/

/-- The frames under way, those nearer to the receiver first. -/
def transit (r : Relay) : List Frame := r.slot.toList ++ r.composer.held

/-- The relay of the effect with the source `origin` when `m` of its frames have been received: the
frames under way are the next ones, and what the composer leaves is the source after them. -/
structure Supplies (origin : Source Random.Generator) (m : Nat) (r : Relay) : Prop where
  heard : r.heard = true
  next : origin.take (m + r.transit.length) = origin.take m ++ r.transit
  rest : ∃ rest, origin.skip (m + r.transit.length) = (m + r.transit.length, rest) ∧
    r.composer.Leaves rest r.token

namespace Supplies

variable {origin : Source Random.Generator} {m : Nat} {r r' : Relay}

/-- All frames that were received are frames of the effect. -/
theorem length_take (h : r.Supplies origin m) : (origin.take m).length = m := by
  rcases h.rest with ⟨rest, hskip, -⟩
  have hlength := congrArg List.length h.next
  rw [Source.length_take_of_skip hskip, List.length_append] at hlength
  omega

/-- A relay supplies its effect from the start. -/
theorem withGenerator (e : Effect) (g : Random.Generator) :
    (Relay.withGenerator e g).Supplies (e.source g) 0 := by
  cases e with
  | solid color => exact ⟨rfl, rfl, _, rfl, Or.inr rfl⟩
  | _ => exact ⟨rfl, rfl, _, rfl, rfl⟩

theorem ofEffect (e : Effect) (seed : UInt64) :
    (Relay.ofEffect e seed).Supplies (e.source (Random.Generator.ofSeed seed)) 0 := by
  rw [ofEffect_eq]
  exact withGenerator e _

/-- A step of the composer changes nothing about what is supplied. -/
theorem compose (h : r.Supplies origin m) (hstep : Compose r r') : r'.Supplies origin m := by
  rcases h.rest with ⟨rest, hskip, hleaves⟩
  have hheard := h.heard
  have hnext := h.next
  cases hstep with
  | ended hc hn =>
    -- nothing was under way in the composer's hands, and nothing is left
    have hrest := hleaves
    simp only [hc, Composer.Leaves] at hrest
    refine ⟨hheard, ?_, rest, ?_, Or.inr (hrest ▸ hn)⟩
    · simpa [transit, Composer.held, hc] using hnext
    · simpa [transit, Composer.held, hc] using hskip
  | stopped hc hn ht =>
    refine ⟨hheard, ?_, rest, ?_, Or.inl ht⟩
    · simpa [transit, Composer.held, hc] using hnext
    · simpa [transit, Composer.held, hc] using hskip
  | @offer source after frame hc hn ht =>
    -- the frame in hand is the next one of what the composer left
    have hrest := hleaves
    simp only [hc, Composer.Leaves] at hrest
    have hn' : rest.next = some (frame, after) := hrest ▸ hn
    rcases Source.skip_take_succ hskip hn' with ⟨hskip', htake'⟩
    have htransit : transit { r with composer := .sending frame after } = r.transit ++ [frame] := by
      simp [transit, Composer.held, hc]
    refine ⟨hheard, ?_, after, ?_, rfl⟩
    · rw [htransit, List.length_append, List.length_singleton, ← Nat.add_assoc, htake', hnext,
        List.append_assoc]
    · rw [htransit, List.length_append, List.length_singleton, ← Nat.add_assoc, hskip']
  | @send after frame hc hs hh =>
    -- the frame goes from the composer's hands into the slot, so it is still under way
    have htransit : transit { r with slot := some frame, composer := .asking after } =
        r.transit := by
      simp [transit, Composer.held, hc, hs]
    have hrest := hleaves
    simp only [hc, Composer.Leaves] at hrest
    refine ⟨hheard, ?_, rest, ?_, hrest⟩
    · rw [htransit, hnext]
    · rw [htransit, hskip]
  | unheard hc hh =>
    rw [hheard] at hh
    cases hh

/-- Changes of the token that leave a raised flag up change nothing about what is supplied. -/
theorem onToken (h : r.Supplies origin m) {f : Token → Token}
    (hf : r.token.cancelled = true → (f r.token).cancelled = true) :
    (r.onToken f).Supplies origin m := by
  rcases h.rest with ⟨rest, hskip, hleaves⟩
  refine ⟨h.heard, h.next, rest, hskip, ?_⟩
  cases hc : r.composer with
  | gone =>
    simp only [hc, Composer.Leaves] at hleaves
    simp only [Relay.onToken, hc, Composer.Leaves]
    exact hleaves.imp_left hf
  | _ =>
    simp only [hc, Composer.Leaves] at hleaves
    simpa only [Relay.onToken, hc, Composer.Leaves] using hleaves

/-- The frame in the slot is the next one of the effect. -/
theorem take_succ (h : r.Supplies origin m) {frame : Frame} (hs : r.slot = some frame) :
    origin.take (m + 1) = origin.take m ++ [frame] := by
  have htransit : r.transit = frame :: r.composer.held := by simp [transit, hs]
  have hnext := h.next
  rw [htransit, List.length_cons, Nat.add_comm _ 1, ← Nat.add_assoc] at hnext
  rw [← Source.take_take_add (m + 1) r.composer.held.length origin, hnext]
  simp [List.take_append, h.length_take, List.take_of_length_le]

/-- What lies in the slot comes next in the effect. -/
theorem take_slot (h : r.Supplies origin m) :
    origin.take (m + r.slot.toList.length) = origin.take m ++ r.slot.toList := by
  cases hs : r.slot with
  | none => simp
  | some frame => simpa using h.take_succ hs

/-- Receiving the frame in the slot. -/
theorem emptied (h : r.Supplies origin m) {frame : Frame} (hs : r.slot = some frame) :
    r.emptied.Supplies origin (m + 1) := by
  rcases h.rest with ⟨rest, hskip, hleaves⟩
  have htransit : r.transit = frame :: r.emptied.transit := by simp [transit, Relay.emptied, hs]
  have hlength : m + r.transit.length = m + 1 + r.emptied.transit.length := by
    rw [htransit, List.length_cons]
    omega
  refine ⟨h.heard, ?_, rest, ?_, hleaves⟩
  · rw [← hlength, h.next, h.take_succ hs, htransit]
    simp
  · rw [← hlength, hskip]

/-- A composer that is gone leaves an empty slot only if all frames were received, or the token was
cancelled. -/
theorem size?_eq_of_over (h : r.Supplies origin m) (hs : r.slot = none)
    (hc : r.composer = .gone) : r.token.cancelled = true ∨ origin.size? = some m := by
  rcases h.rest with ⟨rest, hskip, hleaves⟩
  simp only [hc, Composer.Leaves] at hleaves
  have htransit : r.transit = [] := by simp [transit, hs, hc, Composer.held]
  rw [htransit] at hskip
  exact hleaves.imp_right (Source.size?_eq_of_skip hskip)

end Supplies

end Relay

end Beacon
