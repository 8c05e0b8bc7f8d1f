import Mathlib.Data.List.TakeWhile
import SearchQuery.Geo.Coordinates

/-!
# SearchQuery.Proofs.Coordinates

The form of coordinate texts, and that reading them finds exactly that form.

`Coordinates.Writes c cs` says how the parts of `c` stand in the text `cs`: numbers in decimal digits of
any script, a comma, blanks wherever there may be some, and after the point perhaps `~`, a number and a
unit. Each reader is described twice, by what stands in front of the rest it returns and by what it does
on a text of that form. The second needs to know what cannot go on with a number (`EndsNumeral`).

* `readNumeral?_some`, `readNumeral?_chars`      — a number.
* `readDistance?_some`, `readDistance?_part`     — what may follow the point.
* `readCoordinates?_eq_some_iff`                 — whole texts. It follows that a text has at most one
  decomposition.
* `place_exactly`                                — the point and the distance of every text.
-/

namespace SearchQuery
namespace Geo

/-! ## The form -/

def Blanks (cs : List Char) : Prop :=
  ∀ c ∈ cs, Text.isBlank c = true

/-- Written in digits of one class, with at least one of them before the point. -/
structure Numeral.WrittenIn (isDigit : Char → Bool) (n : Numeral) : Prop where
  whole_ne : n.whole ≠ []
  whole : ∀ c ∈ n.whole, isDigit c = true
  fraction : ∀ c ∈ n.fraction, isDigit c = true

def unitChars : Option LengthUnit → List Char
  | none => []
  | some unit => unit.text.toList

/-- How a distance stands after the point. -/
inductive DistancePart : Option (Numeral × Option LengthUnit) → List Char → Prop
  | absent : DistancePart none []
  | given {n : Numeral} {unit : Option LengthUnit} {before between : List Char}
      (hn : n.WrittenIn Text.isDecimalDigit) (hsign : n.negative = false)
      (hbefore : Blanks before) (hbetween : Blanks between) :
      DistancePart (some (n, unit)) ('~' :: (before ++ (n.chars ++ (between ++ unitChars unit))))

/-- How coordinates stand in a text. -/
inductive Coordinates.Writes (c : Coordinates) : List Char → Prop
  | intro {s₁ s₂ s₃ s₄ s₅ part : List Char}
      (hlatitude : c.latitude.WrittenIn Text.isDecimalDigit)
      (hlongitude : c.longitude.WrittenIn Text.isDecimalDigit)
      (hpart : DistancePart c.distance part)
      (h₁ : Blanks s₁) (h₂ : Blanks s₂) (h₃ : Blanks s₃) (h₄ : Blanks s₄) (h₅ : Blanks s₅) :
      Writes c (s₁ ++ (c.latitude.chars ++ (s₂ ++ ',' ::
        (s₃ ++ (c.longitude.chars ++ (s₄ ++ (part ++ s₅)))))))

/-! ## Characters -/

theorem isBlank_of_isDecimalDigit {c : Char} (h : Text.isDecimalDigit c = true) :
    Text.isBlank c = false := by
  have htable : ∀ z ∈ Text.digitZeros, ∀ k < 10, Text.isBlank (Char.ofNat (z + k)) = false := by
    decide +kernel
  simp only [Text.isDecimalDigit, List.any_eq_true, Bool.and_eq_true, decide_eq_true_eq] at h
  obtain ⟨z, hz, hlow, hhigh⟩ := h
  have hc := htable z hz (c.toNat - z) (by omega)
  rwa [Nat.add_sub_of_le hlow, Char.ofNat_toNat] at hc

theorem isDecimalDigit_of_isBlank {c : Char} (h : Text.isBlank c = true) :
    Text.isDecimalDigit c = false := by
  cases hd : Text.isDecimalDigit c with
  | false => rfl
  | true => rw [isBlank_of_isDecimalDigit hd] at h; cases h

/-- No number can go on in this text. -/
def EndsNumeral (cs : List Char) : Prop :=
  ∀ c, cs.head? = some c → Text.isDecimalDigit c = false ∧ c ≠ '.'

theorem endsNumeral_cons {c : Char} {cs : List Char} (hdigit : Text.isDecimalDigit c = false)
    (hpoint : c ≠ '.') : EndsNumeral (c :: cs) := by
  intro d hd
  obtain rfl := Option.some.inj hd
  exact ⟨hdigit, hpoint⟩

theorem Blanks.endsNumeral {bs cs : List Char} (hbs : Blanks bs) (hcs : EndsNumeral cs) :
    EndsNumeral (bs ++ cs) := by
  cases bs with
  | nil => exact hcs
  | cons b bs =>
    have hb := hbs b List.mem_cons_self
    refine endsNumeral_cons (isDecimalDigit_of_isBlank hb) ?_
    rintro rfl
    exact absurd hb (by decide)

theorem unitChars_endsNumeral (unit : Option LengthUnit) {bs : List Char} (hbs : Blanks bs) :
    EndsNumeral (unitChars unit ++ bs) := by
  cases unit with
  | none =>
    have hnil : EndsNumeral [] := by simp [EndsNumeral]
    simpa [unitChars] using hbs.endsNumeral hnil
  | some u => cases u <;> exact endsNumeral_cons (by decide) (by decide)

/-! ## Blanks -/

theorem exists_blanks (cs : List Char) : ∃ bs, Blanks bs ∧ cs = bs ++ skipBlanks cs :=
  ⟨cs.takeWhile Text.isBlank, fun _ hc => List.mem_takeWhile_imp hc, List.takeWhile_append_dropWhile.symm⟩

theorem Blanks.skip {bs : List Char} (hbs : Blanks bs) (cs : List Char) :
    skipBlanks (bs ++ cs) = skipBlanks cs :=
  List.dropWhile_append_of_pos hbs

theorem Blanks.skip_all {bs : List Char} (hbs : Blanks bs) : skipBlanks bs = [] :=
  List.dropWhile_eq_nil_iff.2 hbs

theorem blanks_of_skip {cs : List Char} (h : skipBlanks cs = []) : Blanks cs :=
  List.dropWhile_eq_nil_iff.1 h

theorem skipBlanks_cons {c : Char} (cs : List Char) (hc : Text.isBlank c = false) :
    skipBlanks (c :: cs) = c :: cs := by
  rw [skipBlanks, List.dropWhile_cons, hc]
  rfl

/-! ## Numbers -/

namespace Numeral

/-- The digits and the point, without the sign. -/
def unsigned (n : Numeral) : List Char :=
  n.whole ++ (if n.fraction.isEmpty then [] else '.' :: n.fraction)

theorem chars_eq (n : Numeral) : n.chars = (if n.negative then ['-'] else []) ++ n.unsigned :=
  List.append_assoc _ _ _

theorem chars_of_nonneg {n : Numeral} (h : n.negative = false) : n.chars = n.unsigned := by
  rw [chars_eq, h]
  rfl

theorem WrittenIn.unsigned_cons {isDigit : Char → Bool} {n : Numeral} (hn : n.WrittenIn isDigit) :
    ∃ d ds, isDigit d = true ∧ n.unsigned = d :: ds := by
  obtain ⟨d, ds, hd⟩ := List.exists_cons_of_ne_nil hn.whole_ne
  exact ⟨d, _, hn.whole d (hd ▸ List.mem_cons_self), by rw [unsigned, hd]; rfl⟩

/-- Blanks in front of a number are passed over, and nothing of the number. -/
theorem WrittenIn.skip {n : Numeral} (hn : n.WrittenIn Text.isDecimalDigit) {bs : List Char}
    (hbs : Blanks bs) (cs : List Char) : skipBlanks (bs ++ (n.chars ++ cs)) = n.chars ++ cs := by
  obtain ⟨d, ds, hd, hsize⟩ := hn.unsigned_cons
  rw [hbs.skip, chars_eq, hsize]
  cases n.negative with
  | true => exact skipBlanks_cons _ (by decide)
  | false => exact skipBlanks_cons _ (isBlank_of_isDecimalDigit hd)

end Numeral

theorem readDigits?_some {cs digits rest : List Char} (h : readDigits? cs = some (digits, rest)) :
    digits ≠ [] ∧ (∀ c ∈ digits, Text.isDecimalDigit c = true) ∧ cs = digits ++ rest := by
  rw [readDigits?] at h
  split at h
  · cases h
  · rename_i hne
    cases h
    exact ⟨hne, fun _ hc => List.mem_takeWhile_imp hc, List.takeWhile_append_dropWhile.symm⟩

theorem readDigits?_append {digits rest : List Char} (hne : digits ≠ [])
    (hdigits : ∀ c ∈ digits, Text.isDecimalDigit c = true)
    (hrest : ∀ c, rest.head? = some c → Text.isDecimalDigit c = false) :
    readDigits? (digits ++ rest) = some (digits, rest) := by
  have htake : rest.takeWhile Text.isDecimalDigit = [] := by
    cases rest with
    | nil => rfl
    | cons c cs => rw [List.takeWhile_cons, hrest c rfl]; rfl
  have hdrop : rest.dropWhile Text.isDecimalDigit = rest := by
    cases rest with
    | nil => rfl
    | cons c cs => rw [List.dropWhile_cons, hrest c rfl]; rfl
  rw [readDigits?, List.takeWhile_append_of_pos hdigits, List.dropWhile_append_of_pos hdigits, htake,
    hdrop, List.append_nil]
  cases digits with
  | nil => exact absurd rfl hne
  | cons d ds => rfl

theorem readUnsigned?_some {negative : Bool} {cs rest : List Char} {n : Numeral}
    (h : readUnsigned? negative cs = some (n, rest)) :
    n.negative = negative ∧ n.WrittenIn Text.isDecimalDigit ∧ cs = n.unsigned ++ rest := by
  rw [readUnsigned?, Option.map_eq_some_iff] at h
  obtain ⟨⟨whole, after⟩, hwhole, h⟩ := h
  obtain ⟨hne, hdigits, rfl⟩ := readDigits?_some hwhole
  have hplain : n = ⟨negative, whole, []⟩ → rest = after →
      n.negative = negative ∧ n.WrittenIn Text.isDecimalDigit ∧ whole ++ after = n.unsigned ++ rest := by
    rintro rfl rfl
    exact ⟨rfl, ⟨hne, hdigits, by simp⟩, by simp [Numeral.unsigned]⟩
  dsimp only at h
  split at h
  · split at h
    · -- A point counts only with digits after it.
      rename_i fraction tail hfraction
      obtain ⟨hne', hdigits', rfl⟩ := readDigits?_some hfraction
      cases h
      refine ⟨rfl, ⟨hne, hdigits, hdigits'⟩, ?_⟩
      simp [Numeral.unsigned, hne']
    · cases h
      exact hplain rfl rfl
  · cases h
    exact hplain rfl rfl

theorem readUnsigned?_unsigned {n : Numeral} {rest : List Char} (hn : n.WrittenIn Text.isDecimalDigit)
    (hrest : EndsNumeral rest) : readUnsigned? n.negative (n.unsigned ++ rest) = some (n, rest) := by
  obtain ⟨negative, whole, fraction⟩ := n
  obtain ⟨hne, hwhole, hfraction⟩ := hn
  dsimp only at hne hwhole hfraction
  have hdigit : ∀ c, rest.head? = some c → Text.isDecimalDigit c = false := fun c hc => (hrest c hc).1
  cases fraction with
  | nil =>
    have hread := readDigits?_append hne hwhole hdigit
    simp only [Numeral.unsigned, List.isEmpty_nil, if_true, List.append_nil, readUnsigned?, hread,
      Option.map_some]
    split
    · exact absurd rfl (hrest '.' rfl).2
    · rfl
  | cons d ds =>
    have hpoint : ∀ c, ('.' :: (d :: ds ++ rest)).head? = some c → Text.isDecimalDigit c = false := by
      intro c hc
      obtain rfl := Option.some.inj hc
      decide
    have hread := readDigits?_append hne hwhole hpoint
    have hread' := readDigits?_append (List.cons_ne_nil d ds) hfraction hdigit
    simp only [Numeral.unsigned, List.isEmpty_cons, Bool.false_eq_true, if_false, List.append_assoc,
      List.cons_append, readUnsigned?] at hread hread' ⊢
    rw [hread]
    simp only [Option.map_some, hread']

theorem readNumeral?_some {cs rest : List Char} {n : Numeral} (h : readNumeral? cs = some (n, rest)) :
    n.WrittenIn Text.isDecimalDigit ∧ cs = n.chars ++ rest := by
  rw [readNumeral?.eq_def] at h
  split at h
  · obtain ⟨hsign, hn, rfl⟩ := readUnsigned?_some h
    exact ⟨hn, by simp [Numeral.chars_eq, hsign]⟩
  · obtain ⟨hsign, hn, rfl⟩ := readUnsigned?_some h
    exact ⟨hn, by rw [Numeral.chars_of_nonneg hsign]⟩

theorem readNumeral?_chars {n : Numeral} {rest : List Char} (hn : n.WrittenIn Text.isDecimalDigit)
    (hrest : EndsNumeral rest) : readNumeral? (n.chars ++ rest) = some (n, rest) := by
  have hread := readUnsigned?_unsigned hn hrest
  rw [Numeral.chars_eq]
  cases hsign : n.negative with
  | true =>
    rw [hsign] at hread
    exact hread
  | false =>
    rw [hsign] at hread
    obtain ⟨d, ds, hd, hsize⟩ := hn.unsigned_cons
    have hminus : d ≠ '-' := by
      rintro rfl
      exact absurd hd (by decide)
    simp only [Bool.false_eq_true, if_false, List.nil_append, hsize, List.cons_append] at hread ⊢
    rw [readNumeral?.eq_def]
    split
    · rename_i heq
      exact absurd (List.cons.inj heq).1 hminus
    · exact hread

/-! ## Distances -/

theorem readUnit_split (cs : List Char) : cs = unitChars (readUnit cs).1 ++ (readUnit cs).2 := by
  rw [readUnit.eq_def]
  split <;> rfl

/-- The longer unit is taken where two are possible, so only `m` needs to know what follows. -/
theorem readUnit_chars (unit : Option LengthUnit) {bs : List Char} (hbs : Blanks bs) :
    readUnit (skipBlanks (unitChars unit ++ bs)) = (unit, if unit.isSome then bs else []) := by
  cases unit with
  | none => rw [unitChars, List.nil_append, hbs.skip_all]; rfl
  | some u =>
    cases u with
    | miles => rfl
    | kilometres => rfl
    | metres =>
      show readUnit ('m' :: bs) = _
      rw [readUnit.eq_def]
      split
      · rename_i heq
        have hi := hbs 'i' (by rw [(List.cons.inj heq).2]; exact List.mem_cons_self)
        exact absurd hi (by decide)
      · rename_i heq
        exact absurd (List.cons.inj heq).1 (by decide)
      · rename_i heq
        rw [(List.cons.inj heq).2]
        rfl
      · rename_i hm
        exact absurd rfl (hm bs)

theorem readDistance?_some {cs rest : List Char} {distance : Option (Numeral × Option LengthUnit)}
    (h : readDistance? cs = some (distance, rest)) :
    ∃ part, DistancePart distance part ∧ cs = part ++ rest := by
  rw [readDistance?.eq_def] at h
  split at h
  · rename_i tail
    rw [Option.map_eq_some_iff] at h
    obtain ⟨⟨n, after⟩, hread, h⟩ := h
    obtain ⟨before, hbefore, htail⟩ := exists_blanks tail
    obtain ⟨hsign, hn, hsize⟩ := readUnsigned?_some hread
    obtain ⟨between, hbetween, hafter⟩ := exists_blanks after
    have hunit := readUnit_split (skipBlanks after)
    simp only [Prod.mk.injEq] at h
    obtain ⟨rfl, rfl⟩ := h
    refine ⟨_, .given hn hsign hbefore hbetween, ?_⟩
    rw [Numeral.chars_of_nonneg hsign, List.cons_append]
    simp only [List.append_assoc, ← hunit, ← hafter, ← hsize, ← htail]
  · cases h
    exact ⟨[], .absent, rfl⟩

/-- Blanks after the distance are kept or, when no unit stopped the reading, already passed over. -/
theorem readDistance?_part {distance : Option (Numeral × Option LengthUnit)} {part bs : List Char}
    (hpart : DistancePart distance part) (hbs : Blanks bs) :
    ∃ rest, readDistance? (skipBlanks (part ++ bs)) = some (distance, rest) ∧ Blanks rest := by
  cases hpart with
  | absent =>
    refine ⟨[], ?_, by simp [Blanks]⟩
    rw [List.nil_append, hbs.skip_all]
    rfl
  | @given n unit before between hn hsign hbefore hbetween =>
    have hends := hbetween.endsNumeral (unitChars_endsNumeral unit hbs)
    have hread := readUnsigned?_unsigned hn hends
    have hskip := hn.skip hbefore (between ++ (unitChars unit ++ bs))
    rw [hsign] at hread
    rw [Numeral.chars_of_nonneg hsign] at hskip
    refine ⟨if unit.isSome then bs else [], ?_, ?_⟩
    · rw [Numeral.chars_of_nonneg hsign, List.cons_append, skipBlanks_cons _ (by decide)]
      simp only [List.append_assoc, readDistance?, hskip, hread, Option.map_some, hbetween.skip,
        readUnit_chars unit hbs]
    · split
      · exact hbs
      · simp [Blanks]

/-! ## Whole texts -/

theorem DistancePart.endsNumeral {distance : Option (Numeral × Option LengthUnit)}
    {part bs : List Char} (hpart : DistancePart distance part) (hbs : Blanks bs) :
    EndsNumeral (part ++ bs) := by
  cases hpart with
  | absent => exact unitChars_endsNumeral none hbs
  | given _ _ _ _ => exact endsNumeral_cons (by decide) (by decide)

/-- What is read as coordinates has their form. -/
theorem writes_of_readCoordinates? {cs : List Char} {c : Coordinates}
    (h : readCoordinates? cs = some c) : c.Writes cs := by
  simp only [readCoordinates?, Option.bind_eq_bind, Option.bind_eq_some_iff] at h
  obtain ⟨⟨latitude, afterLatitude⟩, hlatitude, h⟩ := h
  dsimp only at h
  split at h
  · rename_i afterComma hcomma
    obtain ⟨⟨longitude, afterLongitude⟩, hlongitude, ⟨distance, rest⟩, hdistance, h⟩ := by
      simpa only [Option.bind_eq_some_iff] using h
    obtain ⟨hempty, rfl⟩ : skipBlanks rest = [] ∧ ⟨latitude, longitude, distance⟩ = c := by
      simpa using h
    obtain ⟨s₁, h₁, hs₁⟩ := exists_blanks cs
    obtain ⟨s₂, h₂, hs₂⟩ := exists_blanks afterLatitude
    obtain ⟨s₃, h₃, hs₃⟩ := exists_blanks afterComma
    obtain ⟨s₄, h₄, hs₄⟩ := exists_blanks afterLongitude
    obtain ⟨hlat, hlat'⟩ := readNumeral?_some hlatitude
    obtain ⟨hlon, hlon'⟩ := readNumeral?_some hlongitude
    obtain ⟨part, hpart, hpart'⟩ := readDistance?_some hdistance
    have hall := Coordinates.Writes.intro (c := ⟨latitude, longitude, distance⟩) hlat hlon hpart
      h₁ h₂ h₃ h₄ (blanks_of_skip hempty)
    rwa [← hpart', ← hs₄, ← hlon', ← hs₃, ← hcomma, ← hs₂, ← hlat', ← hs₁] at hall
  · cases h

/-- A text of the form is read, and into the parts that were written. -/
theorem readCoordinates?_of_writes {cs : List Char} {c : Coordinates} (h : c.Writes cs) :
    readCoordinates? cs = some c := by
  obtain ⟨hlatitude, hlongitude, hpart, h₁, h₂, h₃, h₄, h₅⟩ := h
  rename_i s₁ s₂ s₃ s₄ s₅ part
  obtain ⟨rest, hdistance, hrest⟩ := readDistance?_part hpart h₅
  have hcomma : ∀ cs, EndsNumeral (',' :: cs) := fun _ => endsNumeral_cons (by decide) (by decide)
  have hlat := readNumeral?_chars hlatitude (h₂.endsNumeral (hcomma (s₃ ++ (c.longitude.chars ++
    (s₄ ++ (part ++ s₅))))))
  have hlon := readNumeral?_chars hlongitude (h₄.endsNumeral (hpart.endsNumeral h₅))
  simp only [readCoordinates?, hlatitude.skip h₁, hlat, Option.bind_eq_bind, Option.bind_some, h₂.skip,
    skipBlanks_cons _ (show Text.isBlank ',' = false by decide), hlongitude.skip h₃, hlon, h₄.skip,
    hdistance, hrest.skip_all, List.isEmpty_nil, if_true]

/-- Coordinates are read from a text exactly when they stand in it. -/
theorem readCoordinates?_eq_some_iff {cs : List Char} {c : Coordinates} :
    readCoordinates? cs = some c ↔ c.Writes cs :=
  ⟨writes_of_readCoordinates?, readCoordinates?_of_writes⟩

theorem readCoordinates?_eq_none_iff {cs : List Char} :
    readCoordinates? cs = none ↔ ∀ c : Coordinates, ¬ c.Writes cs := by
  simp only [Option.eq_none_iff_forall_ne_some, ne_eq, readCoordinates?_eq_some_iff]

/-! ## Places -/

theorem Coordinates.place_ok {c : Coordinates} {place : Place} (h : c.place = .ok place) :
    c.latitude.toFloat? = some place.latitude ∧ c.longitude.toFloat? = some place.longitude ∧
      place.distance = c.distance.map fun (number, unit) => distanceText number unit := by
  rw [Coordinates.place] at h
  split at h
  · cases h
  · rename_i latitude hlatitude
    split at h
    · cases h
    · rename_i longitude hlongitude
      split at h
      · cases h
        exact ⟨hlatitude, hlongitude, rfl⟩
      · cases h

theorem readPlace?_some {text : String} {place : Place} (h : readPlace? text = .ok (some place)) :
    ∃ c : Coordinates, c.Writes text.toList ∧ c.place = .ok place := by
  rw [readPlace?] at h
  split at h
  · cases h
  · rename_i c hread
    refine ⟨c, readCoordinates?_eq_some_iff.1 hread, ?_⟩
    cases hplace : c.place with
    | error e => rw [hplace] at h; cases h
    | ok p => rw [hplace] at h; cases h; rfl

theorem readPlace?_none {text : String} (h : readPlace? text = .ok none) (c : Coordinates) :
    ¬ c.Writes text.toList := by
  rw [readPlace?] at h
  split at h
  · rename_i hread
    exact readCoordinates?_eq_none_iff.1 hread c
  · rename_i c hread
    cases hplace : c.place with
    | error e => rw [hplace] at h; cases h
    | ok p => rw [hplace] at h; cases h

/-- Digits of other scripts are part of the form, but only ASCII digits have a value. -/
theorem Numeral.toFloat?_eq_none_iff {n : Numeral} (hn : n.WrittenIn Text.isDecimalDigit) :
    n.toFloat? = none ↔ ¬ n.WrittenIn Char.isDigit := by
  have hall : (n.whole ++ n.fraction).all Char.isDigit = true ↔ n.WrittenIn Char.isDigit := by
    rw [List.all_append, Bool.and_eq_true, List.all_eq_true, List.all_eq_true]
    exact ⟨fun h => ⟨hn.whole_ne, h.1, h.2⟩, fun h => ⟨h.whole, h.fraction⟩⟩
  rw [← hall, toFloat?]
  split
  · rename_i hdigits
    simp [hdigits]
  · rename_i hdigits
    simp [hdigits]

theorem Numeral.WrittenIn.exists_toFloat? {n : Numeral} (hn : n.WrittenIn Text.isDecimalDigit)
    (hascii : n.WrittenIn Char.isDigit) : ∃ x, n.toFloat? = some x :=
  Option.ne_none_iff_exists'.1 fun hnone => (Numeral.toFloat?_eq_none_iff hn).1 hnone hascii

theorem Coordinates.Writes.point {c : Coordinates} {cs : List Char} (h : c.Writes cs) :
    c.latitude.WrittenIn Text.isDecimalDigit ∧ c.longitude.WrittenIn Text.isDecimalDigit := by
  obtain ⟨hlatitude, hlongitude, -, -, -, -, -, -⟩ := h
  exact ⟨hlatitude, hlongitude⟩

theorem readPlace?_of_writes {text : String} {c : Coordinates} (h : c.Writes text.toList) :
    readPlace? text = c.place.map some := by
  rw [readPlace?, readCoordinates?_of_writes h]

/-- What reading makes of every text. It finds no place exactly if the text is not of the form. A text
of the form stands for one point and one distance. It is an error if a number of the point is not in
ASCII digits, or if the point is not on the globe; the distance is taken with its unit, or in miles. -/
theorem place_exactly (text : String) :
    (readPlace? text = .ok none ↔ ∀ c : Coordinates, ¬ c.Writes text.toList) ∧
    ∀ c : Coordinates, c.Writes text.toList →
      (∀ c' : Coordinates, c'.Writes text.toList → c' = c) ∧
      (¬ c.latitude.WrittenIn Char.isDigit →
        readPlace? text = .error (.badNumber c.latitude.text)) ∧
      (c.latitude.WrittenIn Char.isDigit → ¬ c.longitude.WrittenIn Char.isDigit →
        readPlace? text = .error (.badNumber c.longitude.text)) ∧
      (c.latitude.WrittenIn Char.isDigit → c.longitude.WrittenIn Char.isDigit →
        ∃ latitude longitude, c.latitude.toFloat? = some latitude ∧
          c.longitude.toFloat? = some longitude ∧
          readPlace? text =
            if (-90 ≤ latitude ∧ latitude ≤ 90) ∧ (-180 ≤ longitude ∧ longitude ≤ 180) then
              .ok (some
                { latitude, longitude
                  distance := c.distance.map fun (n, unit) =>
                    n.text ++ match unit with
                      | some u => u.text
                      | none => "mi" })
            else .error (.outOfRange latitude longitude)) := by
  refine ⟨⟨readPlace?_none, fun h => by rw [readPlace?, readCoordinates?_eq_none_iff.2 h]⟩, ?_⟩
  intro c hc
  obtain ⟨hlat, hlon⟩ := hc.point
  rw [readPlace?_of_writes hc, Coordinates.place]
  refine ⟨?_, ?_, ?_, ?_⟩
  · intro c' hc'
    have hread := readCoordinates?_of_writes hc
    rw [readCoordinates?_of_writes hc'] at hread
    exact Option.some.inj hread
  · intro hother
    rw [(Numeral.toFloat?_eq_none_iff hlat).2 hother]
    rfl
  · intro hascii hother
    obtain ⟨latitude, hlatitude⟩ := hlat.exists_toFloat? hascii
    rw [hlatitude, (Numeral.toFloat?_eq_none_iff hlon).2 hother]
    rfl
  · intro hascii hascii'
    obtain ⟨latitude, hlatitude⟩ := hlat.exists_toFloat? hascii
    obtain ⟨longitude, hlongitude⟩ := hlon.exists_toFloat? hascii'
    refine ⟨latitude, longitude, hlatitude, hlongitude, ?_⟩
    have hdistance : (c.distance.map fun (n, unit) => distanceText n unit) =
        c.distance.map fun (n, unit) => n.text ++ match unit with
          | some u => u.text
          | none => "mi" := by
      rcases c.distance with _ | ⟨n, _ | u⟩ <;> rfl
    simp only [hlatitude, hlongitude, hdistance, and_assoc]
    split <;> rfl

/-- In `5 m` the unit is metres, since the `i` of miles would have to follow directly. -/
theorem place_exactly_metres :
    let text := " 51.5 ,-0.12~5 m "
    let c : Coordinates :=
      { latitude := ⟨false, ['5', '1'], ['5']⟩
        longitude := ⟨true, ['0'], ['1', '2']⟩
        distance := some (⟨false, ['5'], []⟩, some .metres) }
    c.Writes text.toList ∧ c.latitude.WrittenIn Char.isDigit ∧ c.longitude.WrittenIn Char.isDigit ∧
      (∀ c' : Coordinates, c'.Writes text.toList → c' = c) ∧
      readPlace? text = .ok (some ⟨51.5, -0.12, some "5m"⟩) ∧
      (∀ c' : Coordinates, ¬ c'.Writes "51.5,-0.12~5 m i".toList) := by
  intro text c
  have hread : readCoordinates? " 51.5 ,-0.12~5 m ".toList = some c := rfl
  have hc : c.Writes text.toList := writes_of_readCoordinates? hread
  have hlatitude : c.latitude.WrittenIn Char.isDigit :=
    ⟨by decide, List.all_eq_true.1 rfl, List.all_eq_true.1 rfl⟩
  have hlongitude : c.longitude.WrittenIn Char.isDigit :=
    ⟨by decide, List.all_eq_true.1 rfl, List.all_eq_true.1 rfl⟩
  obtain ⟨hunique, -, -, hplace⟩ := (place_exactly text).2 c hc
  obtain ⟨latitude, longitude, hlat, hlon, hresult⟩ := hplace hlatitude hlongitude
  obtain rfl : 51.5 = latitude := Option.some.inj hlat
  obtain rfl : -0.12 = longitude := Option.some.inj hlon
  refine ⟨hc, hlatitude, hlongitude, hunique, ?_, (place_exactly _).1.1 rfl⟩
  rw [hresult, if_pos (by decide)]
  rfl

end Geo
end SearchQuery
