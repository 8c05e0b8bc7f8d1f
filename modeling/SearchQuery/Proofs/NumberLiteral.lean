import Mathlib.Algebra.Group.Int.Defs
import Mathlib.Algebra.Group.Nat.Defs
import SearchQuery.Value

/-!
# SearchQuery.Proofs.NumberLiteral

Numbers as they are written in options.

A number is written without zeros in front; a text with such zeros is a name. An integer may have either
sign and must fit into 64 bits. A decimal keeps all its digits: it is displayed as it was written, as long
as it has at most twenty-eight of them.

* `Unpadded`, `IntegerText`, `DecimalText` — the forms.
* `exists_pad_toDigits`       — digits are those of their number, behind zeros.
* `read_eq_int_iff`           — when a text is read as an integer.
* `readPlain?_of_decimalText`, `text_of_decimalText` — a decimal is read and written digit by digit.
* `read_number_exactly`       — all of it, for every text.
-/

namespace SearchQuery
namespace Number

/-! ## The forms -/

/-- The digits of a number: zero, or digits of which the first is not zero. -/
inductive Unpadded : List Char → Prop where
  | zero : Unpadded ['0']
  | number {c : Char} {cs : List Char} (hne : c ≠ '0')
      (hdigits : ∀ d ∈ c :: cs, d.isDigit = true) : Unpadded (c :: cs)

/-- How an integer may be written. -/
inductive IntegerText : Int → List Char → Prop where
  | bare {ds : List Char} (h : Unpadded ds) : IntegerText (Nat.ofDigitChars 10 ds 0) ds
  | plus {ds : List Char} (h : Unpadded ds) : IntegerText (Nat.ofDigitChars 10 ds 0) ('+' :: ds)
  | minus {ds : List Char} (h : Unpadded ds) : IntegerText (-Nat.ofDigitChars 10 ds 0) ('-' :: ds)

/-- How a decimal with a fraction is written. A zero has no sign. -/
structure DecimalText (negative : Bool) (whole fraction cs : List Char) : Prop where
  unpadded : Unpadded whole
  fraction_ne : fraction ≠ []
  fraction_digits : ∀ c ∈ fraction, c.isDigit = true
  size : whole.length + fraction.length ≤ 28
  nonzero : negative = true → Nat.ofDigitChars 10 (whole ++ fraction) 0 ≠ 0
  chars : cs = (if negative then ['-'] else []) ++ (whole ++ '.' :: fraction)

/-! ## Digits -/

theorem ofDigits_eq (cs : List Char) : ofDigits cs = Nat.ofDigitChars 10 cs 0 :=
  Nat.ofDigitChars_eq_foldl.symm

theorem isDigit_iff {c : Char} : c.isDigit = true ↔ 48 ≤ c.toNat ∧ c.toNat ≤ 57 := by
  simp [Char.isDigit, UInt32.le_iff_toNat_le]

theorem digitValue_eq (c : Char) : digitValue c = c.toNat - 48 :=
  rfl

theorem digitValue_lt {c : Char} (h : c.isDigit = true) : digitValue c < 10 := by
  have hc := isDigit_iff.1 h
  rw [digitValue_eq]
  omega

theorem digitChar_digitValue {c : Char} (h : c.isDigit = true) : (digitValue c).digitChar = c := by
  have hc := isDigit_iff.1 h
  apply Char.toNat_inj.1
  rw [Nat.toNat_digitChar_of_lt_ten (digitValue_lt h), digitValue_eq]
  omega

theorem digitValue_pos {c : Char} (h : c.isDigit = true) (hne : c ≠ '0') : 0 < digitValue c := by
  refine Nat.pos_of_ne_zero fun hzero => hne ?_
  rw [← digitChar_digitValue h, hzero]
  rfl

/-- More digits make a longer number. -/
theorem toDigits_append_digits {m : Nat} (hm : 0 < m) {cs : List Char}
    (hcs : ∀ c ∈ cs, c.isDigit = true) :
    Nat.toDigits 10 m ++ cs = Nat.toDigits 10 (Nat.ofDigitChars 10 cs m) := by
  induction cs generalizing m with
  | nil => rw [List.append_nil, Nat.ofDigitChars_nil]
  | cons c cs ih =>
    have hc := hcs c List.mem_cons_self
    have hlt := digitValue_lt hc
    have hone : Nat.toDigits 10 m ++ [c] = Nat.toDigits 10 (10 * m + digitValue c) := by
      rw [← Nat.toDigits_append_toDigits (by decide) hm hlt, Nat.toDigits_of_lt_base hlt,
        digitChar_digitValue hc]
    rw [Nat.ofDigitChars_cons, ← digitValue, ← ih (by omega) fun d hd => hcs d (List.mem_cons_of_mem c hd),
      ← hone, List.append_assoc]
    rfl

/-- Digits are those of the number they denote, with zeros in front. -/
theorem exists_pad_toDigits {ds : List Char} (hne : ds ≠ []) (hds : ∀ c ∈ ds, c.isDigit = true) :
    ∃ k, ds = List.replicate k '0' ++ Nat.toDigits 10 (Nat.ofDigitChars 10 ds 0) := by
  induction ds with
  | nil => exact absurd rfl hne
  | cons c cs ih =>
    have hc := hds c List.mem_cons_self
    have hcs : ∀ d ∈ cs, d.isDigit = true := fun d hd => hds d (List.mem_cons_of_mem c hd)
    rw [Nat.ofDigitChars_cons, ← digitValue, Nat.mul_zero, Nat.zero_add]
    by_cases hzero : c = '0'
    · subst hzero
      by_cases hnil : cs = []
      · subst hnil
        exact ⟨0, rfl⟩
      · obtain ⟨k, hk⟩ := ih hnil hcs
        refine ⟨k + 1, ?_⟩
        rw [List.replicate_succ, List.cons_append]
        exact congrArg ('0' :: ·) hk
    · refine ⟨0, ?_⟩
      rw [← toDigits_append_digits (digitValue_pos hc hzero) hcs,
        Nat.toDigits_of_lt_base (digitValue_lt hc), digitChar_digitValue hc]
      rfl

theorem ofDigitChars_lt {ds : List Char} (hds : ∀ c ∈ ds, c.isDigit = true) {m k : Nat}
    (hm : m < 10 ^ k) : Nat.ofDigitChars 10 ds m < 10 ^ (k + ds.length) := by
  induction ds generalizing m k with
  | nil => simpa using hm
  | cons c cs ih =>
    have hlt := digitValue_lt (hds c List.mem_cons_self)
    have hstep : 10 * m + digitValue c < 10 ^ (k + 1) := by
      rw [Nat.pow_succ]
      omega
    have htail := ih (fun d hd => hds d (List.mem_cons_of_mem c hd)) hstep
    rw [Nat.ofDigitChars_cons, ← digitValue, List.length_cons]
    rwa [Nat.add_assoc, Nat.add_comm 1] at htail

namespace Unpadded

theorem ne_nil {ds : List Char} (h : Unpadded ds) : ds ≠ [] := by
  cases h <;> exact List.cons_ne_nil _ _

theorem digits {ds : List Char} (h : Unpadded ds) : ∀ c ∈ ds, c.isDigit = true := by
  cases h with
  | zero => simp
  | number _ hdigits => exact hdigits

/-- Digits have no zeros in front if no digit follows a zero that they begin with. -/
theorem of_digits {ds : List Char} (hne : ds ≠ []) (hds : ∀ c ∈ ds, c.isDigit = true)
    (hpad : ∀ c cs, ds = '0' :: c :: cs → c.isDigit = false) : Unpadded ds := by
  cases ds with
  | nil => exact absurd rfl hne
  | cons c cs =>
    by_cases hzero : c = '0'
    · subst hzero
      cases cs with
      | nil => exact .zero
      | cons d ds =>
        have hd := hds d (List.mem_cons_of_mem _ List.mem_cons_self)
        rw [hpad d ds rfl] at hd
        cases hd
    · exact .number hzero hds

/-- No digit follows a zero at the start, also when other characters follow. -/
theorem not_padded {ds rest : List Char} (h : Unpadded ds)
    (hrest : ∀ c ∈ rest.head?, c.isDigit = false) {c : Char} {cs : List Char}
    (heq : ds ++ rest = '0' :: c :: cs) : c.isDigit = false := by
  cases h with
  | zero =>
    obtain rfl : rest = c :: cs := List.cons.inj heq |>.2
    exact hrest c rfl
  | number hne _ => exact absurd (List.cons.inj heq).1 hne

end Unpadded

/-! ## Signs -/

theorem splitSign_of_isDigit {c : Char} (cs : List Char) (hc : c.isDigit = true) :
    splitSign (c :: cs) = (false, c :: cs) := by
  rw [splitSign.eq_def]
  split
  · rename_i heq
    rw [(List.cons.inj heq).1] at hc
    cases hc
  · rename_i heq
    rw [(List.cons.inj heq).1] at hc
    cases hc
  · rfl

theorem splitSign_cases (cs : List Char) :
    (∃ ds, cs = '-' :: ds ∧ splitSign cs = (true, ds)) ∨
      (∃ ds, cs = '+' :: ds ∧ splitSign cs = (false, ds)) ∨ splitSign cs = (false, cs) := by
  rw [splitSign.eq_def]
  split
  · exact .inl ⟨_, rfl, rfl⟩
  · exact .inr (.inl ⟨_, rfl, rfl⟩)
  · exact .inr (.inr rfl)

theorem Unpadded.splitSign {ds : List Char} (h : Unpadded ds) (rest : List Char) :
    splitSign (ds ++ rest) = (false, ds ++ rest) := by
  obtain ⟨c, cs, rfl⟩ := List.exists_cons_of_ne_nil h.ne_nil
  exact splitSign_of_isDigit _ (h.digits c List.mem_cons_self)

/-! ## Integers -/

theorem readNat?_eq_some_iff {cs : List Char} {n : Nat} :
    readNat? cs = some n ↔
      cs ≠ [] ∧ (∀ c ∈ cs, c.isDigit = true) ∧ n = Nat.ofDigitChars 10 cs 0 := by
  rw [readNat?, ofDigits_eq, Option.ite_none_right_eq_some, List.all_eq_true, Option.some.injEq,
    and_assoc, eq_comm (a := n)]

theorem readSigned?_eq (cs : List Char) :
    readSigned? cs = (readNat? (splitSign cs).2).map fun (m : Nat) =>
      if (splitSign cs).1 then -(m : Int) else m := by
  rw [readSigned?]
  rcases splitSign cs with ⟨negative, digits⟩
  dsimp only
  cases readNat? digits <;> rfl

theorem fitsInt64_iff {n : Int} : fitsInt64 n = true ↔ -2 ^ 63 ≤ n ∧ n < 2 ^ 63 := by
  rw [fitsInt64, Bool.and_eq_true, decide_eq_true_iff, decide_eq_true_iff]
  rfl

theorem isZeroPadded_iff {cs : List Char} :
    Value.isZeroPadded cs = true ↔
      ∃ c rest, (splitSign cs).2 = '0' :: c :: rest ∧ c.isDigit = true := by
  rw [Value.isZeroPadded]
  split
  · rename_i c rest heq
    constructor
    · intro hc
      exact ⟨c, rest, heq, hc⟩
    · rintro ⟨d, ds, hd, hdigit⟩
      rw [heq] at hd
      rwa [(List.cons.inj (List.cons.inj hd).2).1]
  · rename_i hother
    refine ⟨fun h => (nomatch h), ?_⟩
    rintro ⟨c, rest, heq, -⟩
    exact absurd heq (hother c rest)

/-- Integers are read from their forms, whatever their size. -/
theorem readSigned?_iff {cs : List Char} {n : Int} :
    (Value.isZeroPadded cs = false ∧ readSigned? cs = some n) ↔ IntegerText n cs := by
  constructor
  · rintro ⟨hpad, hread⟩
    rw [readSigned?_eq, Option.map_eq_some_iff] at hread
    obtain ⟨m, hm, hn⟩ := hread
    obtain ⟨hne, hdigits, rfl⟩ := readNat?_eq_some_iff.1 hm
    have hunpadded : Unpadded (splitSign cs).2 := by
      refine .of_digits hne hdigits fun c rest heq => ?_
      rw [← Bool.not_eq_true, isZeroPadded_iff] at hpad
      exact Bool.eq_false_iff.2 fun hc => hpad ⟨c, rest, heq, hc⟩
    rcases splitSign_cases cs with ⟨ds, rfl, hsplit⟩ | ⟨ds, rfl, hsplit⟩ | hsplit
    · rw [hsplit] at hunpadded hn
      subst hn
      exact .minus hunpadded
    · rw [hsplit] at hunpadded hn
      subst hn
      exact .plus hunpadded
    · rw [hsplit] at hunpadded hn
      subst hn
      exact .bare hunpadded
  · intro h
    have hdigits : ∀ {negative : Bool} {ds : List Char}, Unpadded ds →
        splitSign cs = (negative, ds) → Value.isZeroPadded cs = false ∧
          readSigned? cs = some (if negative then -(Nat.ofDigitChars 10 ds 0 : Int)
            else Nat.ofDigitChars 10 ds 0) := by
      intro negative ds hds hsplit
      constructor
      · rw [← Bool.not_eq_true, isZeroPadded_iff, hsplit]
        rintro ⟨c, rest, heq, hc⟩
        rw [← List.append_nil ds] at heq
        rw [hds.not_padded (by simp) heq] at hc
        cases hc
      · have hnat := readNat?_eq_some_iff.2 ⟨hds.ne_nil, hds.digits, rfl⟩
        rw [readSigned?_eq, hsplit]
        simp only [hnat, Option.map_some]
    cases h with
    | bare hds =>
      have hsplit := hds.splitSign []
      rw [List.append_nil] at hsplit
      exact hdigits hds hsplit
    | plus hds => exact hdigits hds rfl
    | minus hds => exact hdigits hds rfl

theorem readInt64?_eq_some_iff {cs : List Char} {n : Int} :
    readInt64? cs = some n ↔ readSigned? cs = some n ∧ -2 ^ 63 ≤ n ∧ n < 2 ^ 63 := by
  rw [readInt64?, Option.filter_eq_some_iff, fitsInt64_iff]

/-! ## Decimals -/

namespace DecimalText

variable {negative : Bool} {whole fraction cs : List Char}

theorem digits (h : DecimalText negative whole fraction cs) :
    ∀ c ∈ whole ++ fraction, c.isDigit = true := by
  intro c hc
  rcases List.mem_append.1 hc with hc | hc
  · exact h.unpadded.digits c hc
  · exact h.fraction_digits c hc

theorem splitSign (h : DecimalText negative whole fraction cs) :
    splitSign cs = (negative, whole ++ '.' :: fraction) := by
  rw [h.chars]
  cases negative with
  | true => rfl
  | false => exact h.unpadded.splitSign _

theorem isZeroPadded (h : DecimalText negative whole fraction cs) :
    Value.isZeroPadded cs = false := by
  rw [← Bool.not_eq_true, isZeroPadded_iff, h.splitSign]
  rintro ⟨c, rest, heq, hc⟩
  have hpoint : ∀ c ∈ ('.' :: fraction).head?, c.isDigit = false := by
    rintro c ⟨⟩
    rfl
  rw [h.unpadded.not_padded hpoint heq] at hc
  cases hc

/-- The point keeps it from being an integer. -/
theorem readInt64? (h : DecimalText negative whole fraction cs) : readInt64? cs = none := by
  have hnat : readNat? (whole ++ '.' :: fraction) = none := by
    refine Option.eq_none_iff_forall_ne_some.2 fun n hn => ?_
    have hpoint := (readNat?_eq_some_iff.1 hn).2.1 '.' (by simp)
    cases hpoint
  rw [Number.readInt64?, readSigned?_eq, h.splitSign, hnat]
  rfl

end DecimalText

namespace Decimal

theorem ten_pow_lt {k : Nat} (h : k ≤ 28) : 10 ^ k < Nat.pow 2 96 :=
  Nat.lt_of_le_of_lt (Nat.pow_le_pow_right (by decide) h) (by decide)

/-- All fraction digits are taken as long as there are at most twenty-eight digits. -/
theorem addFraction?_digits {ds : List Char} (hds : ∀ c ∈ ds, c.isDigit = true) {m k scale : Nat}
    (hm : m < 10 ^ k) (hk : k + ds.length ≤ 28) (hscale : scale + ds.length ≤ 28) :
    addFraction? m scale ds = some (Nat.ofDigitChars 10 ds m, scale + ds.length) := by
  induction ds generalizing m k scale with
  | nil => rfl
  | cons c cs ih =>
    have hc := hds c List.mem_cons_self
    have hlt := digitValue_lt hc
    have hmark : c ≠ '_' := by
      rintro rfl
      cases hc
    rw [List.length_cons] at hk hscale
    have hlonger : 10 * m + digitValue c < 10 ^ (k + 1) := by
      rw [Nat.pow_succ]
      omega
    have hfits : scale < 28 ∧ 10 * m + digitValue c < Nat.pow 2 96 :=
      ⟨by omega, Nat.lt_trans hlonger (ten_pow_lt (by omega))⟩
    have htail := ih (fun d hd => hds d (List.mem_cons_of_mem c hd)) hlonger (by omega)
      (show scale + 1 + cs.length ≤ 28 by omega)
    rw [addFraction?, if_neg hmark, if_pos hfits, htail, Nat.ofDigitChars_cons, ← digitValue,
      List.length_cons, Nat.add_assoc, Nat.add_comm 1]

theorem split_at_point {whole : List Char} (hwhole : ∀ c ∈ whole, c.isDigit = true)
    (fraction : List Char) :
    (whole ++ '.' :: fraction).takeWhile (· ≠ '.') = whole ∧
      ((whole ++ '.' :: fraction).dropWhile (· ≠ '.')).drop 1 = fraction := by
  have hpoint : ∀ c ∈ whole, decide (c ≠ '.') = true := by
    intro c hc
    refine decide_eq_true fun heq => ?_
    have hdigit := hwhole c hc
    rw [heq] at hdigit
    cases hdigit
  constructor
  · rw [List.takeWhile_append_of_pos hpoint]
    simp
  · rw [List.dropWhile_append_of_pos hpoint]
    simp

theorem readPlain?_of_decimalText {negative : Bool} {whole fraction cs : List Char}
    (h : DecimalText negative whole fraction cs) :
    ∃ d, readPlain? cs = some d ∧ d.negative = negative ∧
      d.mantissa = Nat.ofDigitChars 10 (whole ++ fraction) 0 ∧ d.scale = fraction.length := by
  have hsize := h.size
  have hdigits := h.unpadded.digits
  obtain ⟨hwhole, hfraction⟩ := split_at_point hdigits fraction
  have hmarks : (whole ++ fraction).head?.any Char.isDigit = true ∧
      (whole ++ fraction).all (fun c => c.isDigit || c = '_') = true := by
    obtain ⟨c, cs, rfl⟩ := List.exists_cons_of_ne_nil h.unpadded.ne_nil
    refine ⟨hdigits c List.mem_cons_self, List.all_eq_true.2 fun d hd => ?_⟩
    rw [h.digits d hd]
    rfl
  have hstart := ofDigitChars_lt hdigits (m := 0) (k := 0) (by decide)
  have hall := ofDigitChars_lt h.digits (m := 0) (k := 0) (by decide)
  rw [Nat.zero_add] at hstart hall
  rw [List.length_append] at hall
  have hadd : addFraction? (Nat.ofDigitChars 10 whole 0) 0 fraction =
      some (Nat.ofDigitChars 10 (whole ++ fraction) 0, fraction.length) := by
    rw [addFraction?_digits h.fraction_digits hstart hsize (by omega), Nat.ofDigitChars_append,
      Nat.zero_add]
  have hmake : Nat.ofDigitChars 10 (whole ++ fraction) 0 < Nat.pow 2 96 ∧ fraction.length ≤ 28 :=
    ⟨Nat.lt_trans hall (ten_pow_lt hsize), by omega⟩
  have hnegative : (negative && Nat.ofDigitChars 10 (whole ++ fraction) 0 != 0) = negative := by
    cases negative with
    | false => rfl
    | true => simpa using h.nonzero rfl
  refine ⟨⟨negative, _, _, hmake.1, hmake.2⟩, ?_, rfl, rfl, rfl⟩
  rw [readPlain?, h.splitSign]
  simp only [hwhole, hfraction, List.filter_eq_self.2 hdigits]
  rw [if_pos hmarks, ofDigits_eq, if_pos (Nat.lt_trans hstart (ten_pow_lt (by omega))), hadd]
  simp only [Option.bind_some, hnegative, make?, dif_pos hmake]

/-- A decimal that has the digits of its form is displayed in that form. -/
theorem text_of_decimalText {negative : Bool} {whole fraction cs : List Char}
    (h : DecimalText negative whole fraction cs) {d : Decimal} (hnegative : d.negative = negative)
    (hmantissa : d.mantissa = Nat.ofDigitChars 10 (whole ++ fraction) 0)
    (hscale : d.scale = fraction.length) : d.text = String.ofList cs := by
  obtain ⟨k, hk⟩ := exists_pad_toDigits (List.append_ne_nil_of_left_ne_nil h.unpadded.ne_nil _) h.digits
  rw [← hmantissa] at hk
  have hlength := congrArg List.length hk
  rw [List.length_append, List.length_append, List.length_replicate] at hlength
  -- zeros are put in front of the number just where they were written
  have hpad : d.scale + 1 - (Nat.toDigits 10 d.mantissa).length = k := by
    cases h.unpadded with
    | zero =>
      rw [List.length_singleton] at hlength
      omega
    | number hne _ =>
      cases k with
      | zero =>
        rw [List.length_cons] at hlength
        omega
      | succ k => exact absurd (List.cons.inj hk).1 hne
  have hcut : (whole ++ fraction).length - d.scale = whole.length := by
    rw [List.length_append]
    omega
  rw [text]
  simp only [hpad, ← hk, hcut, List.take_left, List.drop_left,
    List.isEmpty_eq_false_iff.2 h.fraction_ne, Bool.false_eq_true, if_false]
  rw [hnegative, h.chars, List.append_assoc]

end Decimal

end Number

namespace Value

open Number

/-- The words that stand for other values. -/
def words : List String :=
  ["true", "false", "null"]

theorem read_eq {s : String} (hs : s ∉ words) :
    Value.read s =
      if isZeroPadded s.toList then .text s
      else
        match readInt64? s.toList with
        | some n => .int n
        | none =>
          match Decimal.read? s.toList with
          | some d => .decimal d
          | none => .text s := by
  simp only [words, List.mem_cons, List.not_mem_nil, or_false, not_or] at hs
  obtain ⟨htrue, hfalse, hnull⟩ := hs
  unfold Value.read
  exact (if_neg htrue).trans ((if_neg hfalse).trans (if_neg hnull))

theorem not_mem_words {s : String} {c : Char} (hc : c ∈ s.toList) (hletter : c.isAlpha = false) :
    s ∉ words := by
  have hwords : words.all (fun word => word.toList.all Char.isAlpha) = true := by decide
  intro hs
  rw [List.all_eq_true.1 (List.all_eq_true.1 hwords s hs) c hc] at hletter
  cases hletter

/-- The words are no numbers, and what is padded is not read as one. -/
theorem read_eq_int_iff {s : String} {n : Int} :
    Value.read s = .int n ↔ isZeroPadded s.toList = false ∧ readInt64? s.toList = some n := by
  by_cases hs : s ∈ words
  · have hnone : ∀ word ∈ words, readInt64? word.toList = none := by decide
    have hother : ∀ m, Value.read s ≠ .int m := by
      simp only [words, List.mem_cons, List.not_mem_nil, or_false] at hs
      rcases hs with rfl | rfl | rfl <;> exact nofun
    simp [hnone s hs, hother n]
  · rw [read_eq hs]
    cases isZeroPadded s.toList with
    | true => simp
    | false =>
      cases readInt64? s.toList with
      | some m => simp
      | none => cases Decimal.read? s.toList <;> simp

/-- What is made of numbers. A text is read as an integer exactly if it has the form of one that fits
into 64 bits. With a zero and another digit in front, after a sign or not, it is no number but a text. A
decimal keeps its sign, its digits and its point, and both its display and its literal in a script are
the text that was written. -/
theorem read_number_exactly (s : String) :
    (∀ n, Value.read s = .int n ↔ IntegerText n s.toList ∧ -2 ^ 63 ≤ n ∧ n < 2 ^ 63) ∧
    (∀ sign ∈ [[], ['-'], ['+']], ∀ (c : Char) (cs : List Char), c.isDigit = true →
      s.toList = sign ++ '0' :: c :: cs → Value.read s = .text s) ∧
    ∀ negative whole fraction, DecimalText negative whole fraction s.toList →
      ∃ d, Value.read s = .decimal d ∧ d.negative = negative ∧
        d.mantissa = Nat.ofDigitChars 10 (whole ++ fraction) 0 ∧ d.scale = fraction.length ∧
        (Value.decimal d).display = s ∧ (Value.decimal d).scriptLiteral = s := by
  refine ⟨fun n => ?_, ?_, ?_⟩
  · rw [read_eq_int_iff, readInt64?_eq_some_iff, ← and_assoc, readSigned?_iff]
  · intro sign hsign c cs hc hs
    have hpadded : isZeroPadded s.toList = true := by
      rw [isZeroPadded_iff, hs]
      simp only [List.mem_cons, List.not_mem_nil, or_false] at hsign
      rcases hsign with rfl | rfl | rfl <;> exact ⟨c, cs, rfl, hc⟩
    have hzero : '0' ∈ s.toList := by
      rw [hs]
      simp
    rw [read_eq (not_mem_words hzero rfl), if_pos hpadded]
  · intro negative whole fraction h
    obtain ⟨d, hread, hnegative, hmantissa, hscale⟩ := Decimal.readPlain?_of_decimalText h
    have htext : d.text = s := by
      rw [Decimal.text_of_decimalText h hnegative hmantissa hscale, String.ofList_toList]
    have hpoint : '.' ∈ s.toList := by
      rw [h.chars]
      simp
    have hvalue : Value.read s = .decimal d := by
      rw [read_eq (not_mem_words hpoint rfl), h.isZeroPadded, h.readInt64?, Decimal.read?, hread]
      rfl
    exact ⟨d, hvalue, hnegative, hmantissa, hscale, htext, htext⟩

/-- The least integer, a padded number, and a decimal whose zeros are all kept. -/
theorem read_number_exactly_zeros :
    IntegerText (-9223372036854775808) "-9223372036854775808".toList ∧
      Value.read "-9223372036854775808" = .int (-9223372036854775808) ∧
      Value.read "+007" = .text "+007" ∧
      DecimalText true ['0'] ['0', '5', '0'] "-0.050".toList ∧
      ∃ d, Value.read "-0.050" = .decimal d ∧ d.mantissa = 50 ∧ d.scale = 3 ∧
        (Value.decimal d).display = "-0.050" ∧ (Value.decimal d).scriptLiteral = "-0.050" := by
  have hdigits : Unpadded ('9' :: "223372036854775808".toList) :=
    .number (by decide) (List.all_eq_true.1 rfl)
  have hleast : IntegerText (-9223372036854775808) "-9223372036854775808".toList := .minus hdigits
  have hdecimal : DecimalText true ['0'] ['0', '5', '0'] "-0.050".toList :=
    ⟨.zero, by decide, List.all_eq_true.1 rfl, by decide, by decide, by decide⟩
  obtain ⟨d, hread, -, hmantissa, hscale, hdisplay, hliteral⟩ :=
    (read_number_exactly "-0.050").2.2 _ _ _ hdecimal
  refine ⟨hleast, ((read_number_exactly _).1 _).2 ⟨hleast, by decide, by decide⟩, ?_, hdecimal,
    d, hread, hmantissa, hscale, hdisplay, hliteral⟩
  exact (read_number_exactly "+007").2.1 ['+'] (by simp) '0' ['7'] rfl (by decide)

end Value
end SearchQuery
