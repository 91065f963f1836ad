/-!
# UTF-8

Texts as bytes. Bytes that are no UTF-8 either fail to decode, or are shown with a replacement
character for each part that cannot be decoded.
-/

namespace Beacon.Text

/-- The bytes of a text. -/
def encode (cs : List Char) : List UInt8 := cs.flatMap String.utf8EncodeChar

/-- The text of some bytes, if they are UTF-8. -/
def decode? (bytes : List UInt8) : Option (List Char) :=
  (ByteArray.utf8Decode? ⟨bytes.toArray⟩).map Array.toList

/-- How many bytes follow a leading byte, and the bounds of the first of them; nothing if no
character starts with this byte. -/
def following? (lead : Nat) : Option (Nat × Nat × Nat) :=
  if lead < 0x80 then some (0, 0x80, 0xBF)
  else if lead < 0xC2 then none
  else if lead < 0xE0 then some (1, 0x80, 0xBF)
  else if lead = 0xE0 then some (2, 0xA0, 0xBF)
  else if lead = 0xED then some (2, 0x80, 0x9F)
  else if lead < 0xF0 then some (2, 0x80, 0xBF)
  else if lead = 0xF0 then some (3, 0x90, 0xBF)
  else if lead < 0xF4 then some (3, 0x80, 0xBF)
  else if lead = 0xF4 then some (3, 0x80, 0x8F)
  else none

/-- The bytes of `rest` that continue a character which still needs `count` of them, the first
between `lo` and `hi`. -/
def continuation : Nat → Nat → Nat → List UInt8 → List UInt8
  | count + 1, lo, hi, byte :: rest =>
    if lo ≤ byte.toNat ∧ byte.toNat ≤ hi then byte :: continuation count 0x80 0xBF rest else []
  | _, _, _, _ => []

/-- The text of some bytes, with a replacement character for the longest part of a character that
breaks off, or for a byte that starts none. -/
def decodeLossy (bytes : List UInt8) : List Char :=
  match bytes with
  | [] => []
  | lead :: rest =>
    match following? lead.toNat with
    | none => '\ufffd' :: decodeLossy rest
    | some (count, lo, hi) =>
      let tail := continuation count lo hi rest
      let shown := ((decode? (lead :: tail)).getD ['\ufffd'])
      shown ++ decodeLossy (rest.drop tail.length)
termination_by bytes.length

end Beacon.Text
