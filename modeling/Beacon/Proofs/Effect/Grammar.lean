import Beacon.Effect.Spec
import Beacon.Proofs.Color
import Beacon.Proofs.Duration
import Beacon.Proofs.Text.Blank

/-!
# The grammar of effects

What the text of an effect is, said without reading it: `Effect.Written` derives a text together
with the effect that it stands for. Reading a line accepts exactly these texts, with blanks around
them, and gives their effects (`Effect.parse_accepts`).

The marks of a spec (blanks, braces, bars, commas) stand in none of its fields, so each field keeps
to an alphabet of its own, and cutting at the marks finds the fields again.
-/

namespace Beacon

open Text (Signed Balanced Enclosed isBlank digits)

/-! ## Fields -/

theorem Color.parse_eq_ok_iff {cs : List Char} {v : Color} :
    Color.parse cs = .ok v ↔ Color.Written cs v := by
  rw [← Color.ofChars?_eq_some_iff]
  unfold Color.parse
  split <;> simp_all

namespace Duration

theorem subset_of_parse {cs : List Char} {d : Duration} (h : parse cs = .ok d) :
    cs ⊆ alphabet := by
  unfold parse at h
  split at h
  · next hread =>
    rw [Except.ok.inj h] at hread
    exact subset_of_ofChars? hread
  · cases h

theorem notMem_of_parse {cs : List Char} {d : Duration} (h : parse cs = .ok d) {c : Char}
    (hc : c ∉ alphabet) : c ∉ cs := fun hmem => hc (subset_of_parse h hmem)

theorem balanced_of_parse {cs : List Char} {d : Duration} (h : parse cs = .ok d) :
    Balanced '{' '}' cs :=
  .of_notMem (notMem_of_parse h (by decide)) (notMem_of_parse h (by decide))

end Duration

/-! ## Patterns -/

/-- The three fields of a pattern: a duration, a colour, and a count that fits in 32 bits. -/
inductive Pattern.Written : List Char → Pattern → Prop
  | mk {d c n : List Char} {p : Pattern} (hd : Duration.parse d = .ok p.delay)
      (hc : Color.Written c p.color) (hn : Signed n p.count)
      (hbounds : -2147483648 ≤ p.count ∧ p.count ≤ 2147483647) :
      Written (d ++ '|' :: c ++ '|' :: n) p

namespace Effect

/-! ## Specs -/

/-- The names of a kind. -/
def Kind.names : Kind → List String
  | .solid => ["", "c", "color"]
  | .fade => ["fade"]
  | .flash => ["flash"]
  | .blend => ["blend"]
  | .fire => ["fire"]

/-- What stands between the braces of an effect. -/
inductive Body : List Char → Effect → Prop
  | solid {cs : List Char} {c : Color} (h : Color.Triple cs c) : Body cs (.solid c)
  | fade {cs : List Char} {p : Pattern} (h : Pattern.Written cs p) : Body cs (.fade p)
  | flash {cs : List Char} {p : Pattern} (h : Pattern.Written cs p) : Body cs (.flash p)
  | blend {a b d : List Char} {start goal : Color} {duration : Duration}
      (ha : Color.Written a start) (hb : Color.Written b goal)
      (hd : Duration.parse d = .ok duration) :
      Body (a ++ '|' :: b ++ '|' :: d) (.blend start goal duration)
  | fire {cs : List Char} {p : Pattern} (h : Pattern.Written cs p) (hcount : 0 ≤ p.count) :
      Body cs (.fire p)

/-- The text of an effect: a name of its kind, and its body between braces. -/
inductive Written : List Char → Effect → Prop
  | mk {name : String} {body : List Char} {e : Effect} (hname : name ∈ e.kind.names)
      (hbody : Body body e) : Written (name.toList ++ '{' :: body ++ ['}']) e

theorem bind_eq_ok_iff {ε α β : Type} {x : Except ε α} {f : α → Except ε β} {b : β} :
    (x >>= f) = .ok b ↔ ∃ a, x = .ok a ∧ f a = .ok b := by
  cases x <;> simp [bind, Except.bind]

theorem map_eq_ok_iff {ε α β : Type} {x : Except ε α} {f : α → β} {b : β} :
    x.map f = .ok b ↔ ∃ a, x = .ok a ∧ f a = b := by
  cases x <;> simp [Except.map]

theorem Kind.ofName?_eq_some_iff {name : String} {k : Kind} :
    Kind.ofName? name = some k ↔ name ∈ k.names := by
  constructor
  · intro h
    unfold Kind.ofName? at h
    split_ifs at h <;> cases h <;> simp_all [Kind.names]
  · intro h
    cases k <;> simp only [Kind.names, List.mem_cons, List.not_mem_nil, or_false] at h
    case solid => simp [Kind.ofName?, h]
    all_goals
      subst h
      simp [Kind.ofName?]

theorem parseCount_eq_ok_iff {cs : List Char} {n : Int} :
    parseCount cs = .ok n ↔ Signed cs n ∧ -2147483648 ≤ n ∧ n ≤ 2147483647 := by
  rw [← Text.integerWithin?_eq_some_iff]
  unfold parseCount
  split <;> simp_all

theorem parseFields_eq_ok_iff {spec body a b c : List Char} :
    parseFields spec body = .ok (a, b, c) ↔
      body = a ++ '|' :: b ++ '|' :: c ∧ '|' ∉ a ∧ '|' ∉ b ∧ '|' ∉ c := by
  rw [← Text.fields_eq_three_iff]
  unfold parseFields
  split <;> simp_all

/-- No field of a pattern holds a bar, so cutting at the bars finds the fields again. -/
theorem parsePattern_eq_ok_iff {spec body : List Char} {p : Pattern} :
    parsePattern spec body = .ok p ↔ Pattern.Written body p := by
  unfold parsePattern
  constructor
  · intro h
    rcases bind_eq_ok_iff.1 h with ⟨⟨d, c, n⟩, hfields, h⟩
    rcases bind_eq_ok_iff.1 h with ⟨delay, hd, h⟩
    rcases bind_eq_ok_iff.1 h with ⟨color, hc, h⟩
    rcases bind_eq_ok_iff.1 h with ⟨count, hn, h⟩
    cases h
    rcases parseFields_eq_ok_iff.1 hfields with ⟨rfl, -⟩
    rcases parseCount_eq_ok_iff.1 hn with ⟨hn, hbounds⟩
    exact .mk hd (Color.parse_eq_ok_iff.1 hc) hn hbounds
  · intro h
    cases h with
    | mk hd hc hn hbounds =>
      have hbar := Duration.notMem_of_parse hd (by decide : '|' ∉ Duration.alphabet)
      refine bind_eq_ok_iff.2 ⟨_, parseFields_eq_ok_iff.2
        ⟨rfl, hbar, hc.notMem (by decide), hn.notMem (by decide)⟩, ?_⟩
      refine bind_eq_ok_iff.2 ⟨_, hd, ?_⟩
      refine bind_eq_ok_iff.2 ⟨_, Color.parse_eq_ok_iff.2 hc, ?_⟩
      exact bind_eq_ok_iff.2 ⟨_, parseCount_eq_ok_iff.2 ⟨hn, hbounds⟩, rfl⟩

theorem parseBlend_eq_ok_iff {spec body : List Char} {e : Effect} :
    parseBlend spec body = .ok e ↔ Body body e ∧ e.kind = .blend := by
  unfold parseBlend
  constructor
  · intro h
    rcases bind_eq_ok_iff.1 h with ⟨⟨a, b, d⟩, hfields, h⟩
    rcases bind_eq_ok_iff.1 h with ⟨start, ha, h⟩
    rcases bind_eq_ok_iff.1 h with ⟨goal, hb, h⟩
    rcases bind_eq_ok_iff.1 h with ⟨duration, hd, h⟩
    cases h
    rcases parseFields_eq_ok_iff.1 hfields with ⟨rfl, -⟩
    exact ⟨.blend (Color.parse_eq_ok_iff.1 ha) (Color.parse_eq_ok_iff.1 hb) hd, rfl⟩
  · rintro ⟨h, hkind⟩
    cases h with
    | blend ha hb hd =>
      have hbar := Duration.notMem_of_parse hd (by decide : '|' ∉ Duration.alphabet)
      refine bind_eq_ok_iff.2 ⟨_, parseFields_eq_ok_iff.2
        ⟨rfl, ha.notMem (by decide), hb.notMem (by decide), hbar⟩, ?_⟩
      refine bind_eq_ok_iff.2 ⟨_, Color.parse_eq_ok_iff.2 ha, ?_⟩
      refine bind_eq_ok_iff.2 ⟨_, Color.parse_eq_ok_iff.2 hb, ?_⟩
      exact bind_eq_ok_iff.2 ⟨_, hd, rfl⟩
    | solid | fade | flash | fire => cases hkind

theorem parseFire_eq_ok_iff {spec body : List Char} {e : Effect} :
    parseFire spec body = .ok e ↔ Body body e ∧ e.kind = .fire := by
  unfold parseFire
  constructor
  · intro h
    rcases bind_eq_ok_iff.1 h with ⟨p, hp, h⟩
    split at h
    · cases h
    · next hcount =>
      cases h
      exact ⟨.fire (parsePattern_eq_ok_iff.1 hp) (Int.not_lt.1 hcount), rfl⟩
  · rintro ⟨h, hkind⟩
    cases h with
    | fire hp hcount =>
      exact bind_eq_ok_iff.2 ⟨_, parsePattern_eq_ok_iff.2 hp, if_neg (Int.not_lt.2 hcount)⟩
    | solid | fade | flash | blend => cases hkind

/-- The braces that a bare colour must not hold are those that no triple holds. -/
theorem parseSolid_eq_ok_iff {spec body : List Char} {e : Effect} :
    parseSolid spec body = .ok e ↔ Body body e ∧ e.kind = .solid := by
  unfold parseSolid
  constructor
  · intro h
    split at h
    · cases h
    · next hbraces =>
      rcases map_eq_ok_iff.1 h with ⟨c, hc, rfl⟩
      cases Color.parse_eq_ok_iff.1 hc with
      | bare hc => exact ⟨.solid hc, rfl⟩
      | braced hc => exact absurd (Or.inl List.mem_cons_self) hbraces
  · rintro ⟨h, hkind⟩
    cases h with
    | solid hc =>
      have hbraces : ¬('{' ∈ body ∨ '}' ∈ body) :=
        not_or.2 ⟨hc.notMem (by decide), hc.notMem (by decide)⟩
      rw [if_neg hbraces]
      exact map_eq_ok_iff.2 ⟨_, Color.parse_eq_ok_iff.2 (.bare hc), rfl⟩
    | fade | flash | blend | fire => cases hkind

theorem parseBody_eq_ok_iff {k : Kind} {spec body : List Char} {e : Effect} :
    parseBody k spec body = .ok e ↔ Body body e ∧ e.kind = k := by
  cases k with
  | solid => exact parseSolid_eq_ok_iff
  | blend => exact parseBlend_eq_ok_iff
  | fire => exact parseFire_eq_ok_iff
  | fade =>
    simp only [parseBody, map_eq_ok_iff, parsePattern_eq_ok_iff]
    constructor
    · rintro ⟨p, hp, rfl⟩
      exact ⟨.fade hp, rfl⟩
    · rintro ⟨h, hkind⟩
      cases h with
      | fade hp => exact ⟨_, hp, rfl⟩
      | solid | flash | blend | fire => cases hkind
  | flash =>
    simp only [parseBody, map_eq_ok_iff, parsePattern_eq_ok_iff]
    constructor
    · rintro ⟨p, hp, rfl⟩
      exact ⟨.flash hp, rfl⟩
    · rintro ⟨h, hkind⟩
      cases h with
      | flash hp => exact ⟨_, hp, rfl⟩
      | solid | fade | blend | fire => cases hkind

/-- The letters of names. -/
def Kind.letters : List Char :=
  ['c', 'o', 'l', 'r', 'f', 'a', 'd', 'e', 's', 'h', 'b', 'n', 'i']

theorem Kind.subset_of_mem_names {name : String} {k : Kind} (h : name ∈ k.names) :
    name.toList ⊆ letters := by
  cases k <;> simp only [names, List.mem_cons, List.not_mem_nil, or_false] at h
  case solid => rcases h with rfl | rfl | rfl <;> decide
  all_goals
    subst h
    decide

theorem Kind.notMem_of_mem_names {name : String} {k : Kind} (h : name ∈ k.names) {c : Char}
    (hc : c ∉ letters) : c ∉ name.toList := fun hmem => hc (subset_of_mem_names h hmem)

theorem parseTrimmed_eq_ok_iff {spec : List Char} {e : Effect} :
    parseTrimmed spec = .ok e ↔ Written spec e := by
  unfold parseTrimmed
  constructor
  · intro h
    split at h
    · cases h
    · next name body henclosed =>
      split at h
      · cases h
      · next k hname =>
        rcases Text.enclosed?_eq_some_iff.1 henclosed with ⟨rfl, -⟩
        rcases parseBody_eq_ok_iff.1 h with ⟨hbody, rfl⟩
        simpa using Written.mk (Kind.ofName?_eq_some_iff.1 hname) hbody
  · intro h
    cases h with
    | mk hname hbody =>
      have hopening := Kind.notMem_of_mem_names hname (by decide : '{' ∉ Kind.letters)
      rw [Text.enclosed?_eq_some_iff.2 ⟨rfl, hopening⟩]
      simp only [String.ofList_toList, Kind.ofName?_eq_some_iff.2 hname]
      exact parseBody_eq_ok_iff.2 ⟨hbody, rfl⟩

/-! ## The shape of a spec -/

/-- The characters of specs. -/
def alphabet : List Char := Kind.letters ++ ['{', '}', ',', '|', '-'] ++ Duration.alphabet

theorem subset_of_parse {cs : List Char} {d : Duration} (h : Duration.parse cs = .ok d) :
    cs ⊆ alphabet := List.subset_append_of_subset_right _ (Duration.subset_of_parse h)

theorem subset_of_color {cs : List Char} {c : Color} (h : Color.Written cs c) : cs ⊆ alphabet :=
  List.Subset.trans h.subset (by decide)

section Fields

variable {a b c : List Char}

theorem fields_subset (ha : a ⊆ alphabet) (hb : b ⊆ alphabet) (hc : c ⊆ alphabet) :
    a ++ '|' :: b ++ '|' :: c ⊆ alphabet := by
  have hbar : '|' ∈ alphabet := by decide
  simp only [List.append_subset, List.cons_subset]
  exact ⟨⟨ha, hbar, hb⟩, hbar, hc⟩

theorem fields_balanced (ha : Balanced '{' '}' a) (hb : Balanced '{' '}' b)
    (hc : Balanced '{' '}' c) : Balanced '{' '}' (a ++ '|' :: b ++ '|' :: c) := by
  have hbar : Balanced '{' '}' ['|'] := .of_notMem (by decide) (by decide)
  simpa using ha.append (hbar.append (hb.append (hbar.append hc)))

theorem fields_count_bar (ha : '|' ∉ a) (hb : '|' ∉ b) (hc : '|' ∉ c) :
    (a ++ '|' :: b ++ '|' :: c).count '|' = 2 := by
  simp [List.count_eq_zero.2 ha, List.count_eq_zero.2 hb, List.count_eq_zero.2 hc]

theorem fields_count_comma (a b c : List Char) :
    (a ++ '|' :: b ++ '|' :: c).count ',' = a.count ',' + b.count ',' + c.count ',' := by
  simp [Nat.add_assoc]

end Fields

end Effect

namespace Pattern

open Effect (alphabet)

variable {body : List Char} {p : Pattern}

theorem Written.balanced (h : Written body p) : Balanced '{' '}' body := by
  cases h with
  | mk hd hc hn hbounds =>
    have hn : Balanced '{' '}' _ := .of_notMem (hn.notMem (by decide)) (hn.notMem (by decide))
    exact Effect.fields_balanced (Duration.balanced_of_parse hd) hc.balanced hn

theorem Written.subset (h : Written body p) : body ⊆ alphabet := by
  cases h with
  | mk hd hc hn hbounds =>
    have hn := List.Subset.trans hn.subset (by decide : ['+', '-'] ++ digits ⊆ alphabet)
    exact Effect.fields_subset (Effect.subset_of_parse hd) (Effect.subset_of_color hc) hn

theorem Written.count_bar (h : Written body p) : body.count '|' = 2 := by
  cases h with
  | mk hd hc hn hbounds =>
    have hd := Duration.notMem_of_parse hd (by decide : '|' ∉ Duration.alphabet)
    exact Effect.fields_count_bar hd (hc.notMem (by decide)) (hn.notMem (by decide))

theorem Written.count_comma (h : Written body p) : body.count ',' = 2 := by
  cases h with
  | mk hd hc hn hbounds =>
    have hd := Duration.notMem_of_parse hd (by decide : ',' ∉ Duration.alphabet)
    have hn := hn.notMem (by decide : ',' ∉ ['+', '-'] ++ digits)
    rw [Effect.fields_count_comma, List.count_eq_zero.2 hd, hc.count_comma,
      List.count_eq_zero.2 hn]

end Pattern

namespace Effect

variable {spec body : List Char} {e : Effect}

theorem Body.balanced (h : Body body e) : Balanced '{' '}' body := by
  cases h with
  | solid h => exact h.balanced
  | fade h | flash h => exact h.balanced
  | fire h hcount => exact h.balanced
  | blend ha hb hd =>
    exact fields_balanced ha.balanced hb.balanced (Duration.balanced_of_parse hd)

theorem Body.subset (h : Body body e) : body ⊆ alphabet := by
  cases h with
  | solid h => exact subset_of_color (.bare h)
  | fade h | flash h => exact h.subset
  | fire h hcount => exact h.subset
  | blend ha hb hd =>
    exact fields_subset (subset_of_color ha) (subset_of_color hb) (subset_of_parse hd)

theorem Body.count_bar (h : Body body e) :
    body.count '|' = if e.kind = .solid then 0 else 2 := by
  cases h with
  | solid h => exact List.count_eq_zero.2 (h.notMem (by decide))
  | fade h | flash h => exact h.count_bar
  | fire h hcount => exact h.count_bar
  | blend ha hb hd =>
    have hd := Duration.notMem_of_parse hd (by decide : '|' ∉ Duration.alphabet)
    exact fields_count_bar (ha.notMem (by decide)) (hb.notMem (by decide)) hd

theorem Body.count_comma (h : Body body e) :
    body.count ',' = if e.kind = .blend then 4 else 2 := by
  cases h with
  | solid h => exact h.count_comma
  | fade h | flash h => exact h.count_comma
  | fire h hcount => exact h.count_comma
  | blend ha hb hd =>
    have hd := Duration.notMem_of_parse hd (by decide : ',' ∉ Duration.alphabet)
    rw [fields_count_comma, ha.count_comma, hb.count_comma, List.count_eq_zero.2 hd]
    rfl

/-- The braces of a spec open right behind its name, and close with its last character. -/
theorem Written.enclosed (h : Written spec e) : Enclosed '{' '}' spec := by
  cases h with
  | mk hname hbody =>
    exact ⟨_, _, rfl, Kind.notMem_of_mem_names hname (by decide),
      Kind.notMem_of_mem_names hname (by decide), hbody.balanced⟩

theorem Written.subset (h : Written spec e) : spec ⊆ alphabet := by
  cases h with
  | mk hname hbody =>
    have hname := List.subset_append_of_subset_left ['{', '}', ',', '|', '-']
      (Kind.subset_of_mem_names hname)
    simp only [List.append_subset, List.cons_subset]
    exact ⟨⟨List.subset_append_of_subset_left _ hname, by decide, hbody.subset⟩, by decide,
      List.nil_subset _⟩

theorem Written.not_blank (h : Written spec e) : ∀ c ∈ spec, isBlank c = false := by
  have hall : alphabet.all (fun c => !isBlank c) = true := by decide
  intro c hc
  simpa using List.all_eq_true.1 hall c (h.subset hc)

/-- A mark that is neither a brace nor in a name counts in the body alone. -/
theorem Written.exists_count (h : Written spec e) :
    ∃ body, Body body e ∧ ∀ c, c ∉ ['{', '}'] ++ Kind.letters → spec.count c = body.count c := by
  cases h with
  | mk hname hbody =>
    refine ⟨_, hbody, fun c hc => ?_⟩
    simp only [List.cons_append, List.nil_append, List.mem_cons, not_or] at hc
    have hname := List.count_eq_zero.2 (Kind.notMem_of_mem_names hname hc.2.2)
    simp [hname, List.count_cons_of_ne (Ne.symm hc.1), List.count_eq_zero, hc.2.1]

/-- Reading a line accepts exactly the grammar: it gives an effect if and only if the line is a text
of this effect with blanks around it. And a text of an effect has no blank in it, as many bars and
commas as its kind has fields, and it is enclosed: its first brace is closed by its last character,
and every other brace in between. -/
theorem parse_accepts (line : String) (e : Effect) :
    (parse line = .ok e ↔ ∃ left spec right, line.toList = left ++ spec ++ right ∧
      (∀ c ∈ left, isBlank c = true) ∧ (∀ c ∈ right, isBlank c = true) ∧ Written spec e) ∧
    ∀ spec, Written spec e → (∀ c ∈ spec, isBlank c = false) ∧
      (spec.count '|' = if e.kind = .solid then 0 else 2) ∧
      (spec.count ',' = if e.kind = .blend then 4 else 2) ∧ Enclosed '{' '}' spec := by
  constructor
  · constructor
    · intro h
      rcases Text.exists_eq_append_trim line.toList with ⟨left, right, hline, hleft, hright⟩
      exact ⟨left, _, right, hline, hleft, hright, parseTrimmed_eq_ok_iff.1 h⟩
    · rintro ⟨left, spec, right, hline, hleft, hright, h⟩
      rw [parse, hline, Text.trim_append hleft h.not_blank hright]
      exact parseTrimmed_eq_ok_iff.2 h
  · intro spec h
    rcases h.exists_count with ⟨body, hbody, hcount⟩
    refine ⟨h.not_blank, ?_, ?_, h.enclosed⟩
    · rw [hcount '|' (by decide)]
      exact hbody.count_bar
    · rw [hcount ',' (by decide)]
      exact hbody.count_comma

/-- A bare colour between blanks. -/
theorem parse_accepts_color :
    parse " c{255,0,12}\n" = .ok (.solid ⟨255, 0, 12⟩) ∧
      ∃ spec, Written spec (.solid ⟨255, 0, 12⟩) ∧ Enclosed '{' '}' spec := by
  have hparse : parse " c{255,0,12}\n" = .ok (.solid ⟨255, 0, 12⟩) := rfl
  rcases (parse_accepts _ _).1.1 hparse with ⟨left, spec, right, hline, hleft, hright, h⟩
  rcases (parse_accepts " c{255,0,12}\n" _).2 spec h with ⟨hblank, hbars, hcommas, henclosed⟩
  exact ⟨hparse, spec, h, henclosed⟩

end Effect

end Beacon
