import Beacon.Source
import Beacon.Token

/-!
# Playbacks

A playback hands out the frames of one effect under a token: once the token is cancelled, nothing
more comes. Dropping a playback cancels its token, so that whoever produces the frames can stop.
-/

namespace Beacon

/-- The frames still to come, and the token that can end them early. -/
structure Playback (γ : Type) where
  source : Source γ
  token : Token
  deriving DecidableEq, Repr

namespace Playback

variable {γ : Type}

/-- The playback of an effect from its start. -/
def ofEffect (dice : γ) (e : Effect) : Playback γ := ⟨e.source dice, Token.fresh⟩

/-- Ends the playback early. -/
def cancel (p : Playback γ) : Playback γ := { p with token := p.token.cancel }

/-- The next frame, unless the playback was cancelled or the effect is over. -/
def next [Random.Dice γ] (p : Playback γ) : Option Frame × Playback γ :=
  if p.token.cancelled then (none, p)
  else match p.source.next with
    | none => (none, p)
    | some (frame, source) => (some frame, { p with source })

end Playback

end Beacon
