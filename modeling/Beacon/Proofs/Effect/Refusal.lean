import Beacon.Proofs.Effect.Grammar

/-!
# Texts that are refused

Which complaint a text gets that is no effect, said without reading it. `Effect.Refused` derives a
text together with the complaint about it: the braces come first, then the name, then what stands
between the braces, whose fields are looked at from left to right (`Effect.LeftmostBad`). Reading a
line refuses exactly these texts, with blanks around them, and with just these complaints
(`Effect.parse_refuses`).
-/

namespace Beacon

open Text (Signed isBlank Trimmed)

namespace Effect

variable {spec body a b c : List Char} {k : Kind} {err : SpecError}

/-! ## Fields -/

/-- A field of an effect, as far as its text can be refused: what it has to be, and the complaint
if it is not. -/
structure Field where
  Good : Prop
  complaint : SpecError

namespace Field

/-- A field that is to be a duration. -/
def duration (cs : List Char) : Field where
  Good := ∃ d, Duration.parse cs = .ok d
  complaint := .badDuration (String.ofList cs)

/-- A field that is to be a colour. -/
def color (cs : List Char) : Field where
  Good := ∃ v, Color.Written cs v
  complaint := .badColor (String.ofList cs)

/-- A field that is to be a count of 32 bits. -/
def count (cs : List Char) : Field where
  Good := ∃ n, Signed cs n ∧ -2147483648 ≤ n ∧ n ≤ 2147483647
  complaint := .badRepeatCount (String.ofList cs)

end Field

/-- What the three fields of a kind are to be. -/
def Kind.fields (a b c : List Char) : Kind → List Field
  | blend => [.color a, .color b, .duration c]
  | _ => [.duration a, .color b, .count c]

/-- The complaint is about one of some fields, and all fields left of it are good. -/
def LeftmostBad (fields : List Field) (err : SpecError) : Prop :=
  ∃ left bad right, fields = left ++ bad :: right ∧ (∀ f ∈ left, f.Good) ∧ ¬ bad.Good ∧
    err = bad.complaint

@[simp] theorem leftmostBad_nil : ¬ LeftmostBad [] err := by
  rintro ⟨left, bad, right, hfields, -⟩
  simp at hfields

@[simp] theorem leftmostBad_cons {f : Field} {fields : List Field} :
    LeftmostBad (f :: fields) err ↔
      ¬ f.Good ∧ err = f.complaint ∨ f.Good ∧ LeftmostBad fields err := by
  constructor
  · rintro ⟨left, bad, right, hfields, hleft, hbad, herr⟩
    cases left with
    | nil =>
      rcases List.cons.inj hfields with ⟨rfl, -⟩
      exact .inl ⟨hbad, herr⟩
    | cons first left =>
      rcases List.cons.inj hfields with ⟨rfl, hrest⟩
      rcases List.forall_mem_cons.1 hleft with ⟨hfirst, hleft⟩
      exact .inr ⟨hfirst, left, bad, right, hrest, hleft, hbad, herr⟩
  · rintro (⟨hbad, herr⟩ | ⟨hgood, left, bad, right, rfl, hleft, hbad, herr⟩)
    · exact ⟨[], f, fields, rfl, by simp, hbad, herr⟩
    · exact ⟨f :: left, bad, right, rfl, List.forall_mem_cons.2 ⟨hgood, hleft⟩, hbad, herr⟩

/-! ## Texts and the complaints about them -/

/-- Three fields between bars are refused: the bars are not two, or the complaint is about the first
field from the left that is not good. -/
inductive RefusedFields (spec : List Char) (k : Kind) : List Char → SpecError → Prop
  | bars {body : List Char} (h : body.count '|' ≠ 2) :
      RefusedFields spec k body (.malformed (String.ofList spec))
  | field {a b c : List Char} {err : SpecError} (ha : '|' ∉ a) (hb : '|' ∉ b) (hc : '|' ∉ c)
      (h : LeftmostBad (k.fields a b c) err) : RefusedFields spec k (a ++ '|' :: b ++ '|' :: c) err

/-- What stands between the braces of an effect is refused. A bare colour must hold no braces of its
own; all other kinds have three fields. A fire whose fields are all good may still have a count that
is negative, and that is shown in its plain form. -/
inductive RefusedBody (spec : List Char) : Kind → List Char → SpecError → Prop
  | braces {body : List Char} (h : '{' ∈ body ∨ '}' ∈ body) :
      RefusedBody spec .solid body (.malformed (String.ofList spec))
  | solid {body : List Char} (hbraces : ¬('{' ∈ body ∨ '}' ∈ body))
      (h : ∀ v, ¬ Color.Written body v) :
      RefusedBody spec .solid body (.badColor (String.ofList body))
  | fields {k : Kind} {body : List Char} {err : SpecError} (hk : k ≠ .solid)
      (h : RefusedFields spec k body err) : RefusedBody spec k body err
  | negative {body : List Char} {p : Pattern} (h : Pattern.Written body p) (hcount : p.count < 0) :
      RefusedBody spec .fire body (.badRepeatCount (toString p.count))

/-- A text is refused: it has no brace that opens, or it does not end with one that closes behind
that, whatever its name; its name is none; or what stands between the braces is refused. -/
inductive Refused : List Char → SpecError → Prop
  | unopened {spec : List Char} (h : '{' ∉ spec) : Refused spec (.malformed (String.ofList spec))
  | unclosed {name rest : List Char} (hname : '{' ∉ name) (h : rest.getLast? ≠ some '}') :
      Refused (name ++ '{' :: rest) (.malformed (String.ofList (name ++ '{' :: rest)))
  | unknown {name body : List Char} (hname : '{' ∉ name)
      (h : ∀ k, String.ofList name ∉ Kind.names k) :
      Refused (name ++ '{' :: body ++ ['}']) (.unknownEffectName (String.ofList name))
  | body {name body : List Char} {k : Kind} {err : SpecError} (hname : String.ofList name ∈ k.names)
      (h : RefusedBody (name ++ '{' :: body ++ ['}']) k body err) :
      Refused (name ++ '{' :: body ++ ['}']) err

/-! ## Checks of fields -/

theorem bind_eq_error_iff {ε α β : Type} {x : Except ε α} {f : α → Except ε β} {e : ε} :
    (x >>= f) = .error e ↔ x = .error e ∨ ∃ v, x = .ok v ∧ f v = .error e := by
  cases x <;> simp [bind, Except.bind]

theorem map_eq_error_iff {ε α β : Type} {x : Except ε α} {f : α → β} {e : ε} :
    x.map f = .error e ↔ x = .error e := by
  cases x <;> simp [Except.map]

section Check

variable {α β : Type} {f : Field} {fields : List Field} {x : Except SpecError α}

/-- What reading a field gives: a value if the field is good, and otherwise the complaint. -/
structure Field.Checked (f : Field) (x : Except SpecError α) : Prop where
  ok : (∃ v, x = .ok v) ↔ f.Good
  error : ∀ err, x = .error err → err = f.complaint

theorem Field.Checked.error_iff (hf : f.Checked x) :
    x = .error err ↔ ¬ f.Good ∧ err = f.complaint := by
  rw [← hf.ok]
  cases x with
  | ok v => simp
  | error first =>
    have hfirst := hf.error first rfl
    simp [hfirst, eq_comm]

/-- Reading a field and then the ones right of it complains about the leftmost that is not good. -/
theorem Field.Checked.bind {g : α → Except SpecError β} (hf : f.Checked x)
    (hg : ∀ v, g v = .error err ↔ LeftmostBad fields err) :
    (x >>= g) = .error err ↔ LeftmostBad (f :: fields) err := by
  rw [bind_eq_error_iff, hf.error_iff, leftmostBad_cons, ← hf.ok]
  simp only [hg, exists_and_right]

theorem Field.duration_checked (cs : List Char) : (duration cs).Checked (Duration.parse cs) where
  ok := Iff.rfl
  error err h := by
    unfold Duration.parse at h
    split at h
    · cases h
    · exact (Except.error.inj h).symm

theorem Field.color_checked (cs : List Char) : (color cs).Checked (Color.parse cs) where
  ok := exists_congr fun _ => Color.parse_eq_ok_iff
  error err h := by
    unfold Color.parse at h
    split at h
    · cases h
    · exact (Except.error.inj h).symm

theorem Field.count_checked (cs : List Char) : (count cs).Checked (parseCount cs) where
  ok := exists_congr fun _ => parseCount_eq_ok_iff
  error err h := by
    unfold parseCount at h
    split at h
    · cases h
    · exact (Except.error.inj h).symm

end Check

/-! ## Checks of specs -/

theorem parseFields_eq_error_iff :
    parseFields spec body = .error err ↔
      body.count '|' ≠ 2 ∧ err = .malformed (String.ofList spec) := by
  have hlength := Text.length_fields '|' body
  unfold parseFields
  split
  · next hfields =>
    rw [hfields] at hlength
    have hcount : body.count '|' = 2 := Nat.succ.inj hlength.symm
    simp [hcount]
  · next hfields =>
    have hcount : body.count '|' ≠ 2 := by
      intro hcount
      rw [hcount] at hlength
      rcases List.length_eq_three.1 hlength with ⟨a, b, c, habc⟩
      exact hfields a b c habc
    simp [hcount, eq_comm]

/-- The bars are counted before the fields are looked at. -/
theorem bind_parseFields_eq_error_iff {α : Type}
    {g : List Char × List Char × List Char → Except SpecError α}
    (hg : ∀ a b c, g (a, b, c) = .error err ↔ LeftmostBad (k.fields a b c) err) :
    (parseFields spec body >>= g) = .error err ↔ RefusedFields spec k body err := by
  rw [bind_eq_error_iff, parseFields_eq_error_iff]
  constructor
  · rintro (⟨hbars, rfl⟩ | ⟨⟨a, b, c⟩, hfields, h⟩)
    · exact .bars hbars
    · rcases parseFields_eq_ok_iff.1 hfields with ⟨rfl, ha, hb, hc⟩
      exact .field ha hb hc ((hg a b c).1 h)
  · intro h
    cases h with
    | bars hbars => exact .inl ⟨hbars, rfl⟩
    | field ha hb hc hbad =>
      exact .inr ⟨_, parseFields_eq_ok_iff.2 ⟨rfl, ha, hb, hc⟩, (hg _ _ _).2 hbad⟩

theorem parsePattern_eq_error_iff (hkind : k ≠ .blend) :
    parsePattern spec body = .error err ↔ RefusedFields spec k body err := by
  refine bind_parseFields_eq_error_iff fun a b c => ?_
  have hfields : k.fields a b c = [.duration a, .color b, .count c] := by
    cases k <;> first | rfl | exact absurd rfl hkind
  rw [hfields]
  refine (Field.duration_checked a).bind fun _ => ?_
  refine (Field.color_checked b).bind fun _ => ?_
  refine (Field.count_checked c).bind fun _ => ?_
  simp [pure, Except.pure]

theorem parseBlend_eq_error_iff :
    parseBlend spec body = .error err ↔ RefusedFields spec .blend body err := by
  refine bind_parseFields_eq_error_iff fun a b c => ?_
  refine (Field.color_checked a).bind fun _ => ?_
  refine (Field.color_checked b).bind fun _ => ?_
  refine (Field.duration_checked c).bind fun _ => ?_
  simp [pure, Except.pure]

theorem parseFire_eq_error_iff :
    parseFire spec body = .error err ↔ RefusedFields spec .fire body err ∨
      ∃ p, Pattern.Written body p ∧ p.count < 0 ∧ err = .badRepeatCount (toString p.count) := by
  unfold parseFire
  rw [bind_eq_error_iff, parsePattern_eq_error_iff (k := .fire) (by decide)]
  simp only [parsePattern_eq_ok_iff]
  refine or_congr_right (exists_congr fun p => and_congr_right fun _ => ?_)
  split <;> simp_all [eq_comm]

theorem parseSolid_eq_error_iff :
    parseSolid spec body = .error err ↔ RefusedBody spec .solid body err := by
  unfold parseSolid
  constructor
  · intro h
    split at h
    · next hbraces =>
      rw [← Except.error.inj h]
      exact .braces hbraces
    · next hbraces =>
      rcases (Field.color_checked body).error_iff.1 (map_eq_error_iff.1 h) with ⟨hbad, rfl⟩
      exact .solid hbraces (not_exists.1 hbad)
  · intro h
    cases h with
    | braces hbraces => rw [if_pos hbraces]
    | solid hbraces hbad =>
      rw [if_neg hbraces, map_eq_error_iff]
      exact (Field.color_checked body).error_iff.2 ⟨not_exists.2 hbad, rfl⟩
    | fields hk => exact absurd rfl hk

theorem parseBody_eq_error_iff :
    parseBody k spec body = .error err ↔ RefusedBody spec k body err := by
  -- besides its fields, only a bare colour and a fire have a check of their own
  have hfields : k ≠ .solid → k ≠ .fire →
      (RefusedBody spec k body err ↔ RefusedFields spec k body err) := by
    intro hsolid hfire
    constructor
    · intro h
      cases h with
      | fields hk h => exact h
      | braces | solid => exact absurd rfl hsolid
      | negative => exact absurd rfl hfire
    · exact .fields hsolid
  cases k with
  | solid => exact parseSolid_eq_error_iff
  | blend => rw [parseBody, parseBlend_eq_error_iff, hfields (by decide) (by decide)]
  | fade =>
    rw [parseBody, map_eq_error_iff, hfields (by decide) (by decide)]
    exact parsePattern_eq_error_iff (by decide)
  | flash =>
    rw [parseBody, map_eq_error_iff, hfields (by decide) (by decide)]
    exact parsePattern_eq_error_iff (by decide)
  | fire =>
    -- a count is refused only where all fields are right
    rw [parseBody, parseFire_eq_error_iff]
    constructor
    · rintro (h | ⟨p, hp, hcount, rfl⟩)
      · exact .fields (by decide) h
      · exact .negative hp hcount
    · intro h
      cases h with
      | fields hk h => exact .inl h
      | negative hp hcount => exact .inr ⟨_, hp, hcount, rfl⟩

theorem Kind.ofName?_eq_none_iff {name : String} :
    Kind.ofName? name = none ↔ ∀ k : Kind, name ∉ k.names := by
  simp only [← Kind.ofName?_eq_some_iff, Option.eq_none_iff_forall_ne_some, ne_eq]

theorem parseTrimmed_eq_error_iff : parseTrimmed spec = .error err ↔ Refused spec err := by
  unfold parseTrimmed
  constructor
  · intro h
    split at h
    · next hnone =>
      cases h
      -- no brace opens, or the last character does not close
      rcases Text.enclosed?_eq_none_iff.1 hnone with hopening | ⟨name, rest, rfl, hname, hlast⟩
      · exact .unopened hopening
      · exact .unclosed hname hlast
    · next name body henclosed =>
      rcases Text.enclosed?_eq_some_iff.1 henclosed with ⟨rfl, hname⟩
      split at h
      · next hunknown =>
        cases h
        exact .unknown hname (Kind.ofName?_eq_none_iff.1 hunknown)
      · next k hk =>
        exact .body (Kind.ofName?_eq_some_iff.1 hk) (parseBody_eq_error_iff.1 h)
  · intro h
    cases h with
    | unopened hopening => rw [Text.enclosed?_eq_none_iff.2 (.inl hopening)]
    | unclosed hname hlast =>
      rw [Text.enclosed?_eq_none_iff.2 (.inr ⟨_, _, rfl, hname, hlast⟩)]
    | unknown hname hunknown =>
      rw [Text.enclosed?_eq_some_iff.2 ⟨rfl, hname⟩]
      simp only [Kind.ofName?_eq_none_iff.2 hunknown]
    | body hname hbody =>
      -- no name has a brace in it, so the text is cut at the first one
      have hopening := Kind.notMem_of_mem_names hname (by decide : '{' ∉ Kind.letters)
      rw [String.toList_ofList] at hopening
      rw [Text.enclosed?_eq_some_iff.2 ⟨rfl, hopening⟩]
      simp only [Kind.ofName?_eq_some_iff.2 hname]
      exact parseBody_eq_error_iff.2 hbody

/-- No text is refused for two reasons. -/
theorem Refused.unique {err' : SpecError} (h : Refused spec err) (h' : Refused spec err') :
    err = err' :=
  Except.error.inj
    ((parseTrimmed_eq_error_iff.2 h).symm.trans (parseTrimmed_eq_error_iff.2 h'))

/-- Reading a line refuses exactly the texts that `Refused` says, with blanks around them, and with
just these complaints. -/
theorem parse_refuses (line : String) (err : SpecError) :
    parse line = .error err ↔ ∃ left spec right, line.toList = left ++ spec ++ right ∧
      (∀ c ∈ left, isBlank c = true) ∧ (∀ c ∈ right, isBlank c = true) ∧ Trimmed spec ∧
      Refused spec err := by
  rw [parse, parseTrimmed_eq_error_iff]
  constructor
  · intro h
    rcases Text.exists_eq_append_trim line.toList with ⟨left, right, hline, hleft, hright⟩
    exact ⟨left, _, right, hline, hleft, hright, Text.trimmed_trim _, h⟩
  · rintro ⟨left, spec, right, hline, hleft, hright, htrimmed, h⟩
    rw [hline, htrimmed.trim_append hleft hright]
    exact h

/-- All three fields are bad here. -/
example : parse " flash{soon|999,0,0|x}\n" = .error (.badDuration "soon") := rfl

end Effect

end Beacon
