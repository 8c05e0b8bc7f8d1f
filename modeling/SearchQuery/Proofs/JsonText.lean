import SearchQuery.Json.Printer

/-!
# SearchQuery.Proofs.JsonText

What the compact text of a JSON document says.

A text in quotes goes up to the first quote that is not escaped, an array up to its own bracket and
an object up to its own brace. So the text of a document tells where it ends, whatever follows it,
and it is the text of no other document. Numbers are left out: one that is followed by a digit is
another number, and the doubles that JSON cannot write are all written `null`.

* `readEscaped_escapeChar` — an escaped character is read back.
* `quoted_append_inj`      — a text in quotes.
* `compact_append_inj`     — a document without numbers.
-/

namespace SearchQuery
namespace Json

/-! ## Characters -/

def hexValue (c : Char) : Nat :=
  if c.isDigit then c.toNat - '0'.toNat else c.toNat - 'a'.toNat + 10

/-- What a letter stands for after a backslash. Other characters stand for themselves. -/
def namedChar : Char → Char
  | 'b' => '\x08'
  | 'f' => '\x0c'
  | 'n' => '\n'
  | 'r' => '\r'
  | 't' => '\t'
  | c => c

/-- The first character of the inside of a quoted text, and what follows it. -/
def readEscaped : List Char → Option (Char × List Char)
  | [] => none
  | '\\' :: 'u' :: a :: b :: c :: d :: rest =>
    some (Char.ofNat (16 * (16 * (16 * hexValue a + hexValue b) + hexValue c) + hexValue d), rest)
  | '\\' :: c :: rest => some (namedChar c, rest)
  | c :: rest => some (c, rest)

theorem toList_controlEscape {c : Char} (h : c.toNat < 0x20) :
    (controlEscape c).toList =
      ['\\', 'u', '0', '0', Nat.digitChar (c.toNat / 16), Nat.digitChar (c.toNat % 16)] := by
  have hdigits : ∀ n < 0x20,
      List.replicate (4 - (Nat.toDigits 16 n).length) '0' ++ Nat.toDigits 16 n =
        ['0', '0', Nat.digitChar (n / 16), Nat.digitChar (n % 16)] := by
    decide
  simp [controlEscape, hdigits _ h]

theorem hexValue_digitChar {n : Nat} (h : n < 16) : hexValue (Nat.digitChar n) = n := by
  have htable : ∀ n < 16, hexValue (Nat.digitChar n) = n := by decide
  exact htable n h

theorem readEscaped_escapeChar (c : Char) (rest : List Char) :
    readEscaped ((escapeChar c).toList ++ rest) = some (c, rest) := by
  by_cases hnamed : c ∈ ['"', '\\', '\x08', '\x0c', '\n', '\r', '\t']
  · simp only [List.mem_cons, List.not_mem_nil, or_false] at hnamed
    rcases hnamed with rfl | rfl | rfl | rfl | rfl | rfl | rfl <;> rfl
  · simp only [List.mem_cons, List.not_mem_nil, or_false, not_or] at hnamed
    by_cases hcontrol : c.toNat < 0x20
    · have hzero : hexValue '0' = 0 := rfl
      have hhigh : hexValue (Nat.digitChar (c.toNat / 16)) = c.toNat / 16 :=
        hexValue_digitChar (by omega)
      have hlow : hexValue (Nat.digitChar (c.toNat % 16)) = c.toNat % 16 :=
        hexValue_digitChar (by omega)
      simp [escapeChar, hnamed, hcontrol, toList_controlEscape, readEscaped, hzero, hhigh, hlow,
        Nat.div_add_mod]
    · simp [escapeChar, hnamed, hcontrol, readEscaped]

theorem escapeChar_append_inj {c d : Char} {r r' : List Char}
    (h : (escapeChar c).toList ++ r = (escapeChar d).toList ++ r') : c = d ∧ r = r' := by
  have hread : some (c, r) = some (d, r') := by
    rw [← readEscaped_escapeChar, h, readEscaped_escapeChar]
  cases hread
  exact ⟨rfl, rfl⟩

/-! ## Texts in quotes -/

/-- The inside of a quoted text. -/
def escaped (cs : List Char) : List Char :=
  cs.flatMap fun c => (escapeChar c).toList

theorem escaped_cons_append (c : Char) (cs rest : List Char) :
    escaped (c :: cs) ++ rest = (escapeChar c).toList ++ (escaped cs ++ rest) := by
  rw [escaped, List.flatMap_cons, List.append_assoc]
  rfl

theorem toList_quoted_append (s : String) (rest : List Char) :
    (quoted s).toList ++ rest = '"' :: (escaped s.toList ++ '"' :: rest) := by
  simp [quoted, escaped, List.flatMap_map]

/-- No escaped character begins with a quote. -/
theorem escapeChar_ne_quote (c : Char) (r r' : List Char) :
    (escapeChar c).toList ++ r ≠ '"' :: r' := by
  intro h
  have hread := readEscaped_escapeChar c r
  rw [h] at hread
  cases hread
  cases h

theorem escaped_append_inj {cs ds r r' : List Char}
    (h : escaped cs ++ '"' :: r = escaped ds ++ '"' :: r') : cs = ds ∧ r = r' := by
  induction cs generalizing ds with
  | nil =>
    cases ds with
    | nil => exact ⟨rfl, (List.cons.inj h).2⟩
    | cons d ds =>
      rw [escaped_cons_append] at h
      exact absurd h.symm (escapeChar_ne_quote d _ _)
  | cons c cs ih =>
    rw [escaped_cons_append] at h
    cases ds with
    | nil => exact absurd h (escapeChar_ne_quote c _ _)
    | cons d ds =>
      rw [escaped_cons_append] at h
      obtain ⟨rfl, hrest⟩ := escapeChar_append_inj h
      obtain ⟨rfl, rfl⟩ := ih hrest
      exact ⟨rfl, rfl⟩

theorem quoted_append_inj {s t : String} {r r' : List Char}
    (h : (quoted s).toList ++ r = (quoted t).toList ++ r') : s = t ∧ r = r' := by
  rw [toList_quoted_append, toList_quoted_append] at h
  obtain ⟨hs, rfl⟩ := escaped_append_inj (List.cons.inj h).2
  exact ⟨String.toList_inj.1 hs, rfl⟩

/-! ## Documents -/

mutual

/-- No number stands in the document. -/
def Numberless : Json → Prop
  | .int _ | .float _ => False
  | .arr items => NumberlessItems items
  | .obj members => NumberlessMembers members
  | .null | .bool _ | .str _ => True

def NumberlessItems : List Json → Prop
  | [] => True
  | item :: items => item.Numberless ∧ NumberlessItems items

def NumberlessMembers : List (String × Json) → Prop
  | [] => True
  | (_, value) :: members => value.Numberless ∧ NumberlessMembers members

end

/-- The character that the text of a document without numbers begins with. It tells the kind of the
document. -/
def mark? : Json → Option Char
  | .null => some 'n'
  | .bool true => some 't'
  | .bool false => some 'f'
  | .int _ => none
  | .float _ => none
  | .str _ => some '"'
  | .arr _ => some '['
  | .obj _ => some '\x7b'

theorem compact_arr_append (items : List Json) (rest : List Char) :
    (compact (.arr items)).toList ++ rest =
      '[' :: ((compactItems items).toList ++ ']' :: rest) := by
  simp [compact]

theorem compact_obj_append (members : List (String × Json)) (rest : List Char) :
    (compact (.obj members)).toList ++ rest =
      '\x7b' :: ((compactMembers members).toList ++ '\x7d' :: rest) := by
  simp [compact]

theorem head?_compact_append {j : Json} (h : j.Numberless) (rest : List Char) :
    (j.compact.toList ++ rest).head? = j.mark? := by
  cases j with
  | null => rfl
  | bool b => cases b <;> rfl
  | int n => rw [Numberless] at h; exact h.elim
  | float x => rw [Numberless] at h; exact h.elim
  | str s => rw [compact, toList_quoted_append]; rfl
  | arr items => rw [compact_arr_append]; rfl
  | obj members => rw [compact_obj_append]; rfl

theorem mark?_eq {j j' : Json} {r r' : List Char} (hj : j.Numberless) (hj' : j'.Numberless)
    (h : j.compact.toList ++ r = j'.compact.toList ++ r') : j.mark? = j'.mark? := by
  rw [← head?_compact_append hj r, h, head?_compact_append hj' r']

/-- The text of an item is not the end of its array. -/
theorem compact_ne_bracket {j : Json} (hj : j.Numberless) (r r' : List Char) :
    j.compact.toList ++ r ≠ ']' :: r' := by
  intro h
  have hmark : j.mark? = some ']' := by rw [← head?_compact_append hj r, h]; rfl
  cases j with
  | bool b => cases b <;> simp [mark?] at hmark
  | _ => simp [mark?] at hmark

/-! ## Parts -/

theorem compactItems_cons_append (item : Json) (items : List Json) (rest : List Char) :
    (compactItems (item :: items)).toList ++ ']' :: rest =
      item.compact.toList ++
        if items.isEmpty then ']' :: rest
        else ',' :: ((compactItems items).toList ++ ']' :: rest) := by
  cases items <;> simp [compactItems]

theorem compactMembers_cons_append (name : String) (value : Json) (members : List (String × Json))
    (rest : List Char) :
    (compactMembers ((name, value) :: members)).toList ++ '\x7d' :: rest =
      (quoted name).toList ++ ':' :: (value.compact.toList ++
        if members.isEmpty then '\x7d' :: rest
        else ',' :: ((compactMembers members).toList ++ '\x7d' :: rest)) := by
  cases members <;> simp [compactMembers]

/-- After a part either the end or a comma follows, so the text tells whether it was the last. -/
theorem after_part_inj {α : Type} {xs ys : List α} {close : Char} {more more' r r' : List Char}
    (hclose : close ≠ ',')
    (h : (if xs.isEmpty then close :: r else ',' :: more) =
      if ys.isEmpty then close :: r' else ',' :: more') :
    xs = [] ∧ ys = [] ∧ r = r' ∨ more = more' := by
  cases xs with
  | nil =>
    cases ys with
    | nil => exact .inl ⟨rfl, rfl, (List.cons.inj h).2⟩
    | cons y ys => exact absurd (List.cons.inj h).1 hclose
  | cons x xs =>
    cases ys with
    | nil => exact absurd (List.cons.inj h).1.symm hclose
    | cons y ys => exact .inr (List.cons.inj h).2

mutual

theorem compact_append_inj : ∀ {j j' : Json} {r r' : List Char}, j.Numberless → j'.Numberless →
    j.compact.toList ++ r = j'.compact.toList ++ r' → j = j' ∧ r = r'
  -- the first character leaves only documents of the same kind to compare
  | .null, j', r, r', hj, hj', h => by
    have hmark := mark?_eq hj hj' h
    cases j' with
    | null => exact ⟨rfl, List.append_cancel_left h⟩
    | bool b => cases b <;> simp [mark?] at hmark
    | _ => simp [mark?] at hmark
  | .bool b, j', r, r', hj, hj', h => by
    have hmark := mark?_eq hj hj' h
    cases j' with
    | bool b' =>
      obtain rfl : b = b' := by cases b <;> cases b' <;> simp [mark?] at hmark ⊢
      exact ⟨rfl, List.append_cancel_left h⟩
    | _ => cases b <;> simp [mark?] at hmark
  | .int n, _, _, _, hj, _, _ => by rw [Numberless] at hj; exact hj.elim
  | .float x, _, _, _, hj, _, _ => by rw [Numberless] at hj; exact hj.elim
  | .str s, j', r, r', hj, hj', h => by
    have hmark := mark?_eq hj hj' h
    cases j' with
    | str t =>
      rw [compact, compact] at h
      obtain ⟨rfl, rfl⟩ := quoted_append_inj h
      exact ⟨rfl, rfl⟩
    | bool b => cases b <;> simp [mark?] at hmark
    | _ => simp [mark?] at hmark
  | .arr items, j', r, r', hj, hj', h => by
    have hmark := mark?_eq hj hj' h
    cases j' with
    | arr items' =>
      rw [Numberless] at hj hj'
      rw [compact_arr_append, compact_arr_append] at h
      obtain ⟨rfl, rfl⟩ := compactItems_append_inj hj hj' (List.cons.inj h).2
      exact ⟨rfl, rfl⟩
    | bool b => cases b <;> simp [mark?] at hmark
    | _ => simp [mark?] at hmark
  | .obj members, j', r, r', hj, hj', h => by
    have hmark := mark?_eq hj hj' h
    cases j' with
    | obj members' =>
      rw [Numberless] at hj hj'
      rw [compact_obj_append, compact_obj_append] at h
      obtain ⟨rfl, rfl⟩ := compactMembers_append_inj hj hj' (List.cons.inj h).2
      exact ⟨rfl, rfl⟩
    | bool b => cases b <;> simp [mark?] at hmark
    | _ => simp [mark?] at hmark

theorem compactItems_append_inj : ∀ {xs ys : List Json} {r r' : List Char},
    NumberlessItems xs → NumberlessItems ys →
    (compactItems xs).toList ++ ']' :: r = (compactItems ys).toList ++ ']' :: r' → xs = ys ∧ r = r'
  | [], [], r, r', _, _, h => ⟨rfl, (List.cons.inj h).2⟩
  | [], y :: ys, r, r', _, hys, h => by
    rw [NumberlessItems] at hys
    rw [compactItems_cons_append] at h
    exact absurd h.symm (compact_ne_bracket hys.1 _ _)
  | x :: xs, [], r, r', hxs, _, h => by
    rw [NumberlessItems] at hxs
    rw [compactItems_cons_append] at h
    exact absurd h (compact_ne_bracket hxs.1 _ _)
  | x :: xs, y :: ys, r, r', hxs, hys, h => by
    rw [NumberlessItems] at hxs hys
    rw [compactItems_cons_append, compactItems_cons_append] at h
    obtain ⟨rfl, hrest⟩ := compact_append_inj hxs.1 hys.1 h
    rcases after_part_inj (by decide) hrest with ⟨rfl, rfl, rfl⟩ | hmore
    · exact ⟨rfl, rfl⟩
    · obtain ⟨rfl, rfl⟩ := compactItems_append_inj hxs.2 hys.2 hmore
      exact ⟨rfl, rfl⟩

theorem compactMembers_append_inj : ∀ {ms ns : List (String × Json)} {r r' : List Char},
    NumberlessMembers ms → NumberlessMembers ns →
    (compactMembers ms).toList ++ '\x7d' :: r = (compactMembers ns).toList ++ '\x7d' :: r' →
    ms = ns ∧ r = r'
  | [], [], r, r', _, _, h => ⟨rfl, (List.cons.inj h).2⟩
  | [], (n, v) :: ns, r, r', _, _, h => by
    rw [compactMembers_cons_append, toList_quoted_append] at h
    simp [compactMembers] at h
  | (m, u) :: ms, [], r, r', _, _, h => by
    rw [compactMembers_cons_append, toList_quoted_append] at h
    simp [compactMembers] at h
  | (m, u) :: ms, (n, v) :: ns, r, r', hms, hns, h => by
    rw [NumberlessMembers] at hms hns
    rw [compactMembers_cons_append, compactMembers_cons_append] at h
    obtain ⟨rfl, hvalue⟩ := quoted_append_inj h
    obtain ⟨rfl, hrest⟩ := compact_append_inj hms.1 hns.1 (List.cons.inj hvalue).2
    rcases after_part_inj (by decide) hrest with ⟨rfl, rfl, rfl⟩ | hmore
    · exact ⟨rfl, rfl⟩
    · obtain ⟨rfl, rfl⟩ := compactMembers_append_inj hms.2 hns.2 hmore
      exact ⟨rfl, rfl⟩

end

end Json
end SearchQuery
