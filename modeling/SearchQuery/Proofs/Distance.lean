import SearchQuery.Geo.Distance
import SearchQuery.Proofs.Coordinates

/-!
# SearchQuery.Proofs.Distance

Where the distance of a filter around a point comes from.

A distance that stands in a coordinate text, whether the value itself or what a name resolves to, gets a
unit: without one it is in miles. It is a number in ASCII digits when it was written in them. A distance
that follows a name is different. It is not read at all: it goes into the filter as it stands, without a
unit if none was written, and instead of the one in the resolved text.

* `measured_distanceText`  — a number with its unit is in ASCII digits exactly if the number is.
* `resolve_finds`          — which coordinates a value stands for, and what follows its name.
* `expander_distance`      — the distance of every filter that the expander writes.
-/

namespace SearchQuery
namespace Geo

/-! ## Measures -/

/-- A number in ASCII digits, directly followed by a unit. -/
def Measured (distance : String) : Prop :=
  ∃ (n : Numeral) (unit : LengthUnit), n.negative = false ∧ n.WrittenIn Char.isDigit ∧
    distance = n.text ++ unit.text

/-- The characters of a measure that are not digits are a point and the letters of the units. -/
theorem Measured.chars {distance : String} (h : Measured distance) :
    ∀ c ∈ distance.toList, Char.isDigit c = true ∨ c ∈ ['.', 'm', 'i', 'k'] := by
  obtain ⟨n, unit, hsign, hn, rfl⟩ := h
  have hunit : ∀ c ∈ unit.text.toList, c ∈ ['.', 'm', 'i', 'k'] := by
    cases unit <;> simp [LengthUnit.text]
  intro c hc
  simp only [Numeral.text, Numeral.chars_of_nonneg hsign, Numeral.unsigned, String.toList_append,
    String.toList_ofList, List.mem_append] at hc
  rcases hc with (hc | hc) | hc
  · exact .inl (hn.whole c hc)
  · split at hc
    · cases hc
    · rcases List.mem_cons.1 hc with rfl | hc
      · exact .inr (by decide)
      · exact .inl (hn.fraction c hc)
  · exact .inr (hunit c hc)

/-- The last character of a measure belongs to its unit. -/
theorem Measured.last {distance : String} (h : Measured distance) :
    distance.toList.getLast? = some 'i' ∨ distance.toList.getLast? = some 'm' := by
  obtain ⟨n, unit, -, -, rfl⟩ := h
  rw [String.toList_append]
  cases unit with
  | miles => exact .inl (by simp [LengthUnit.text])
  | kilometres => exact .inr (by simp [LengthUnit.text])
  | metres => exact .inr (by simp [LengthUnit.text])

/-- A number that is written with its unit, or with miles, keeps the digits that it has. -/
theorem measured_distanceText {n : Numeral} (hn : n.WrittenIn Text.isDecimalDigit)
    (hsign : n.negative = false) (unit : Option LengthUnit) :
    Measured (distanceText n unit) ↔ n.WrittenIn Char.isDigit := by
  refine ⟨fun h => ?_, fun h => ⟨n, unit.getD .miles, hsign, h, rfl⟩⟩
  have hdigit : ∀ c ∈ n.whole ++ n.fraction, Char.isDigit c = true := by
    intro c hc
    have hmem : c ∈ (distanceText n unit).toList := by
      rw [distanceText, String.toList_append, Numeral.text, String.toList_ofList,
        Numeral.chars_of_nonneg hsign, Numeral.unsigned]
      rcases List.mem_append.1 hc with hc | hc
      · simp [hc]
      · simp [List.ne_nil_of_mem hc, hc]
    rcases h.chars c hmem with hascii | hother
    · exact hascii
    · -- None of these characters is a digit of any script.
      have hscript : Text.isDecimalDigit c = true := by
        rcases List.mem_append.1 hc with hc | hc
        · exact hn.whole c hc
        · exact hn.fraction c hc
      simp only [List.mem_cons, List.not_mem_nil, or_false] at hother
      rcases hother with rfl | rfl | rfl | rfl <;> exact absurd hscript (by decide)
  exact ⟨hn.whole_ne, fun c hc => hdigit c (List.mem_append_left _ hc),
    fun c hc => hdigit c (List.mem_append_right _ hc)⟩

theorem Coordinates.Writes.distance {c : Coordinates} {cs : List Char} (h : c.Writes cs) {n : Numeral}
    {unit : Option LengthUnit} (hdistance : c.distance = some (n, unit)) :
    n.WrittenIn Text.isDecimalDigit ∧ n.negative = false := by
  obtain ⟨-, -, hpart, -, -, -, -, -⟩ := h
  rw [hdistance] at hpart
  cases hpart with
  | given hn hsign _ _ => exact ⟨hn, hsign⟩

/-! ## Names -/

theorem splitDistance_cases (cs : List Char) :
    ('~' ∉ cs ∧ splitDistance cs = (cs, none)) ∨
      ∃ name after, cs = name ++ '~' :: after ∧ '~' ∉ after ∧
        splitDistance cs = (name, some after) := by
  rw [splitDistance]
  split
  · rename_i htilde
    have hmem : '~' ∈ cs.reverse := by simpa using htilde
    obtain ⟨before, after, hcs, hlast⟩ := List.eq_append_cons_of_mem hmem
    have hpos : ∀ c ∈ before, decide (c ≠ '~') = true := by
      intro c hc
      exact decide_eq_true fun heq => hlast (heq ▸ hc)
    refine .inr ⟨after.reverse, before.reverse, ?_, by simpa using hlast, ?_⟩
    · have := congrArg List.reverse hcs
      simpa using this
    · simp only [hcs, List.dropWhile_append_of_pos hpos, List.takeWhile_append_of_pos hpos]
      simp
  · rename_i htilde
    exact .inl ⟨by simpa using htilde, rfl⟩

namespace DistanceRule

/-- The coordinates that a value stands for, and the text after `~` if the value is a name with one. A
value that is no coordinate text is a name. -/
inductive Finds (rule : DistanceRule) (value : String) : Coordinates → Option String → Prop
  | coordinates {c : Coordinates} (hc : c.Writes value.toList) : Finds rule value c none
  | name {c : Coordinates} {resolver : String → Option String} {text : String}
      (hname : ∀ d : Coordinates, ¬ d.Writes value.toList) (hresolver : rule.resolver = some resolver)
      (hplain : '~' ∉ value.toList)
      (htext : resolver (String.ofList (Text.trim value.toList)) = some text)
      (hc : c.Writes text.toList) : Finds rule value c none
  | nameWithin {c : Coordinates} {resolver : String → Option String} {text : String}
      {name after : List Char}
      (hname : ∀ d : Coordinates, ¬ d.Writes value.toList) (hresolver : rule.resolver = some resolver)
      (hsplit : value.toList = name ++ '~' :: after) (hlast : '~' ∉ after)
      (htext : resolver (String.ofList (Text.trim name)) = some text)
      (hc : c.Writes text.toList) :
      Finds rule value c (some (String.ofList (Text.trim after)))

theorem Finds.writes {rule : DistanceRule} {value : String} {c : Coordinates} {after : Option String}
    (h : rule.Finds value c after) : ∃ cs, c.Writes cs := by
  cases h with
  | coordinates hc | name _ _ _ _ hc | nameWithin _ _ _ _ _ hc => exact ⟨_, hc⟩

theorem resolveName_finds {rule : DistanceRule} {resolver : String → Option String} {value : String}
    {place : Place} (hname : ∀ d : Coordinates, ¬ d.Writes value.toList)
    (hresolver : rule.resolver = some resolver) (h : resolveName resolver value = .ok place) :
    ∃ c located after, rule.Finds value c after ∧ c.place = .ok located ∧
      place = { located with distance := after.or located.distance } := by
  rw [resolveName] at h
  dsimp only at h
  split at h
  · cases h
  · rename_i text htext
    split at h
    · cases h
    · cases h
    · rename_i located hread
      obtain ⟨c, hc, hplace⟩ := readPlace?_some hread
      cases h
      rcases splitDistance_cases value.toList with ⟨hplain, hsplit⟩ | ⟨name, after, hvalue, hlast, hsplit⟩
      · rw [hsplit] at htext ⊢
        exact ⟨c, located, none, .name hname hresolver hplain htext hc, hplace, rfl⟩
      · rw [hsplit] at htext ⊢
        exact ⟨c, located, _, .nameWithin hname hresolver hvalue hlast htext hc, hplace, rfl⟩

theorem resolve_finds {rule : DistanceRule} {value : String} {place : Place}
    (h : rule.resolve value = .ok place) :
    ∃ c located after, rule.Finds value c after ∧ c.place = .ok located ∧
      place = { located with distance := after.or located.distance } := by
  rw [resolve] at h
  split at h
  · cases h
  · rename_i located hread
    cases h
    obtain ⟨c, hc, hplace⟩ := readPlace?_some hread
    exact ⟨c, place, none, .coordinates hc, hplace, rfl⟩
  · rename_i hread
    split at h
    · cases h
    · rename_i resolver hresolver
      exact resolveName_finds (readPlace?_none hread) hresolver h

/-! ## Filters -/

/-- The expander leaves a context as it is or turns its value into a place. -/
theorem expander_ok {rule : DistanceRule} {clause : Clause} {context context' : Context}
    (h : (rule.expander clause context).result = .ok context') :
    context' = context ∨ ∃ field value place, context.filter = .leaf (.term field value) ∧
      rule.schema.fieldType field = some .geoPoint ∧ rule.resolve value = .ok place ∧
      context' = { context with
        filter := .leaf (.near field place.latitude place.longitude
          (place.distance.getD rule.defaultDistance)) } := by
  rw [expander] at h
  split at h
  · rename_i field value hfilter
    split at h
    · rename_i hgeo
      cases hplace : rule.resolve value with
      | error e => rw [hplace] at h; cases h
      | ok place =>
        rw [hplace] at h
        cases h
        exact .inr ⟨field, value, place, hfilter, hgeo, hplace, rfl⟩
    · exact .inl (Except.ok.inj h).symm
  · exact .inl (Except.ok.inj h).symm

/-- The distance of a filter that the expander has written. After a name it is the text that stands
there, whatever that is. Otherwise it is the default if the coordinates have none, and if they have one
it is that number with its unit, miles when it has none: in ASCII digits just if it was written so. -/
theorem expander_distance {rule : DistanceRule} {clause : Clause} {context context' : Context}
    (hexpand : (rule.expander clause context).result = .ok context')
    (hrewritten : context'.filter ≠ context.filter) :
    ∃ field value latitude longitude distance c after,
      context.filter = .leaf (.term field value) ∧
      rule.schema.fieldType field = some .geoPoint ∧
      context' = { context with filter := .leaf (.near field latitude longitude distance) } ∧
      rule.Finds value c after ∧
      c.latitude.toFloat? = some latitude ∧ c.longitude.toFloat? = some longitude ∧
      (after = some distance ∨
        (after = none ∧ c.distance = none ∧ distance = rule.defaultDistance) ∨
        ∃ n unit, after = none ∧ c.distance = some (n, unit) ∧
          distance = n.text ++ (unit.getD .miles).text ∧
          (Measured distance ↔ n.WrittenIn Char.isDigit)) := by
  rcases expander_ok hexpand with rfl | ⟨field, value, place, hfilter, hgeo, hresolve, rfl⟩
  · exact absurd rfl hrewritten
  obtain ⟨c, located, after, hfinds, hplace, rfl⟩ := resolve_finds hresolve
  obtain ⟨hlatitude, hlongitude, hdistance⟩ := Coordinates.place_ok hplace
  refine ⟨field, value, _, _, _, c, after, hfilter, hgeo, rfl, hfinds, hlatitude, hlongitude, ?_⟩
  cases after with
  | some written => exact .inl rfl
  | none =>
    cases hc : c.distance with
    | none =>
      rw [hc] at hdistance
      exact .inr (.inl ⟨rfl, rfl, by simp [hdistance]⟩)
    | some measure =>
      obtain ⟨n, unit⟩ := measure
      obtain ⟨cs, hwrites⟩ := hfinds.writes
      obtain ⟨hn, hsign⟩ := hwrites.distance hc
      have htext : (none.or located.distance).getD rule.defaultDistance = distanceText n unit := by
        simp [hdistance, hc]
      refine .inr (.inr ⟨n, unit, rfl, rfl, htext, ?_⟩)
      rw [htext]
      exact measured_distanceText hn hsign unit

/-- A bare number in a resolved text is in miles. Blanks around the name do no harm. -/
theorem expander_distance_resolved :
    let rule : DistanceRule :=
      { schema := { fieldType := fun _ => some .geoPoint }
        resolver := some fun name => if name = "home" then some "32.95, -96.65 ~ 7.5" else none }
    let context : Context := ⟨none, .leaf (.term "place" " home ")⟩
    let context' : Context := ⟨none, .leaf (.near "place" 32.95 (-96.65) "7.5mi")⟩
    (rule.expander (.leaf {} (.term " home " false)) context).result = .ok context' ∧
      context'.filter ≠ context.filter ∧
      ∃ c n unit, rule.Finds " home " c none ∧ c.distance = some (n, unit) ∧
        "7.5mi" = n.text ++ (unit.getD .miles).text ∧
        (Measured "7.5mi" ↔ n.WrittenIn Char.isDigit) := by
  intro rule context context'
  have hexpand : (rule.expander (.leaf {} (.term " home " false)) context).result = .ok context' := rfl
  have hrewritten : context'.filter ≠ context.filter := nofun
  refine ⟨hexpand, hrewritten, ?_⟩
  obtain ⟨field, value, latitude, longitude, distance, c, after, hterm, -, hnear, hfinds, -, -, hsource⟩ :=
    expander_distance hexpand hrewritten
  cases hterm
  obtain ⟨-, -, -, rfl⟩ := Constraint.near.inj (Filter.leaf.inj (congrArg Context.filter hnear))
  rcases hsource with hafter | ⟨-, -, hdefault⟩ | ⟨n, unit, rfl, hc, htext, hmeasured⟩
  · cases hfinds with
    | coordinates _ | name _ _ _ _ _ => cases hafter
    | nameWithin _ _ hsplit _ _ _ =>
      have htilde : '~' ∈ " home ".toList := by simp [hsplit]
      exact absurd htilde (by decide)
  · exact absurd hdefault (by decide)
  · exact ⟨c, n, unit, hfinds, hc, htext, hmeasured⟩

/-- After a name a bare number stays bare. -/
theorem distance_after_name_bare :
    let rule : DistanceRule :=
      { schema := { fieldType := fun field => if field = "location" then some .geoPoint else none }
        resolver := some fun name => if name = "75044" then some "32.95,-96.65" else none }
    (rule.expander (.leaf { field := some "location" } (.term "75044~20" false))
        ⟨none, .leaf (.term "location" "75044~20")⟩).result =
        .ok ⟨none, .leaf (.near "location" 32.95 (-96.65) "20")⟩ ∧
      "20" ≠ rule.defaultDistance ∧ ¬ Measured "20" := by
  refine ⟨rfl, by decide, fun h => ?_⟩
  rcases h.last with hlast | hlast <;> exact absurd hlast (by decide)

-- Digits of another script pass as well, though the point itself may not be written in them.
example : readPlace? "1,2~٣.٤" = .ok (some ⟨1, 2, some "٣.٤mi"⟩) := by rfl

end DistanceRule
end Geo
end SearchQuery
