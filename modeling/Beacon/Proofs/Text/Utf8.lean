import Beacon.Text.Utf8

/-!
# Texts and their bytes

Decoding undoes encoding (`decode?_encode`), and only what encodes a text can be decoded
(`encode_of_decode?`). The bytes of one text begin with those of another one only if the texts do
(`isPrefix_of_encode`), so bytes that break off inside a character cannot be decoded. A character of
one byte makes no difference to whether the bytes before it can be decoded (`decode?_concat`).
-/

namespace Beacon.Text

theorem encode_append (cs ds : List Char) : encode (cs ++ ds) = encode cs ++ encode ds :=
  List.flatMap_append

/-- The core library keeps the bytes of a text in a byte array. -/
theorem mk_encode (cs : List Char) : (⟨(encode cs).toArray⟩ : ByteArray) = cs.utf8Encode :=
  ByteArray.ext List.data_toByteArray.symm

@[simp] theorem decode?_encode (cs : List Char) : decode? (encode cs) = some cs := by
  simp [decode?, mk_encode, List.utf8Decode?_utf8Encode]

theorem encode_of_decode? {bytes : List UInt8} {cs : List Char} (h : decode? bytes = some cs) :
    encode cs = bytes := by
  rcases Option.map_eq_some_iff.1 h with ⟨chars, hchars, rfl⟩
  have hsome : (⟨bytes.toArray⟩ : ByteArray).utf8Decode?.isSome = true := by simp [hchars]
  have hencoded := ByteArray.utf8Encode_get_utf8Decode? (h := hsome)
  simp only [hchars, Option.get_some, ← mk_encode] at hencoded
  simpa using congrArg (fun b : ByteArray => b.data.toList) hencoded

theorem isPrefix_of_encode {cs ds : List Char} (h : encode cs <+: encode ds) : cs <+: ds := by
  rcases h with ⟨rest, hrest⟩
  apply List.isPrefix_of_utf8Encode_append_eq_utf8Encode rest.toByteArray
  have hjoined := congrArg List.toByteArray hrest
  rwa [List.toByteArray_append] at hjoined

/-- The bytes of a longer character than one byte do not end in a byte that stands for itself. -/
theorem eq_nil_of_encodeChar {c : Char} {init : List UInt8} {byte : UInt8}
    (h : String.utf8EncodeChar c = init ++ [byte]) (hbyte : byte.toNat < 128) : init = [] := by
  have hlast := congrArg List.getLast? h
  rw [List.getLast?_concat] at hlast
  unfold String.utf8EncodeChar at h hlast
  dsimp only at h hlast
  split at hlast
  · next hone =>
    rw [if_pos hone] at h
    exact (List.append_eq_singleton_iff.1 h.symm).elim And.left fun hnil => by simp at hnil
  · -- the last byte of a longer character has its highest bit set
    have hhigh : UInt8.ofNat (c.val.toNat % 64 + 128) = byte := by
      split at hlast
      · simpa using hlast
      · split at hlast <;> simpa using hlast
    have hnat := congrArg UInt8.toNat hhigh
    rw [UInt8.toNat_ofNat', Nat.mod_eq_of_lt (by omega)] at hnat
    omega

/-- A character of one byte can be decoded wherever it stands, and nothing else changes by it. -/
theorem decode?_concat {c : Char} {byte : UInt8} (hc : String.utf8EncodeChar c = [byte])
    (hbyte : byte.toNat < 128) (bytes : List UInt8) :
    decode? (bytes ++ [byte]) = (decode? bytes).map (· ++ [c]) := by
  have hbytes : ∀ cs, encode (cs ++ [c]) = encode cs ++ [byte] := by
    intro cs
    rw [encode_append]
    simp [encode, hc]
  cases hall : decode? (bytes ++ [byte]) with
  | some ds =>
    have hds := encode_of_decode? hall
    rcases List.eq_nil_or_concat ds with rfl | ⟨cs, d, rfl⟩
    · simp [encode] at hds
    · rw [List.concat_eq_append, encode_append] at hds
      rcases List.eq_nil_or_concat (String.utf8EncodeChar d) with hnil | ⟨init, last, hd⟩
      · exact absurd hnil (String.utf8EncodeChar_ne_nil)
      · have hsplit : encode cs ++ (init ++ [last]) = bytes ++ [byte] := by
          simpa [encode, hd] using hds
        rw [← List.append_assoc] at hsplit
        rcases List.append_inj' hsplit rfl with ⟨hinit, hlast⟩
        rcases List.singleton_inj.1 hlast with rfl
        rw [List.concat_eq_append] at hd
        rcases eq_nil_of_encodeChar hd hbyte with rfl
        rw [List.append_nil] at hinit
        have hsame : encode [d] = encode [c] := by simp [encode, hd, hc]
        have hdc := (decode?_encode [d]).symm.trans (hsame ▸ decode?_encode [c])
        rw [← hinit, decode?_encode]
        simpa using hdc
  | none =>
    cases hfirst : decode? bytes with
    | none => rfl
    | some cs =>
      rw [← encode_of_decode? hfirst, ← hbytes, decode?_encode] at hall
      cases hall

end Beacon.Text
