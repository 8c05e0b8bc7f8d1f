import SearchQuery.Proofs.Continuation

/-!
# SearchQuery.Proofs.BlankInsertion

Blanks between the tokens of a text.

A text can be cut wherever no token is cut in two. What stands before the cut is then read by itself,
whatever comes after it, and what stands after it is read on, where all that matters of the former is
whether it ends with a colon. So blanks can be put there. They make a difference in one case only: a
sign between a colon and a digit is part of the word that the digit starts, and with a blank in front it
is not.

* `scan_colon_iff`          — the tokens that end with a colon.
* `Cut`                     — a text in two parts that are read one after the other.
* `exists_cut`              — there is one wherever no token is cut in two.
* `SignedDigit`             — a sign and a digit, in front of which a colon counts.
* `tokenize_blanks_iff`     — blanks put into a text.
-/

namespace SearchQuery

/-! ## The end of a token -/

theorem readQuoted_ends {delim : Char} {cs body rest : List Char}
    (h : Text.readQuoted delim cs = some (body, rest)) : ∃ inner, cs = inner ++ delim :: rest := by
  fun_induction Text.readQuoted delim cs generalizing body with
  | case1 => cases h
  | case2 cs =>
    cases h
    exact ⟨[], rfl⟩
  | case3 => cases h
  | case4 d ds hne ih =>
    obtain ⟨⟨b, r⟩, hr, he⟩ := Option.map_eq_some_iff.1 h
    cases he
    obtain ⟨inner, rfl⟩ := ih hr
    exact ⟨'\\' :: d :: inner, rfl⟩
  | case5 c cs hne hslash ih =>
    obtain ⟨⟨b, r⟩, hr, he⟩ := Option.map_eq_some_iff.1 h
    cases he
    obtain ⟨inner, rfl⟩ := ih hr
    exact ⟨c :: inner, rfl⟩

section Ends

variable {span rest : List Char} {t : Token}

theorem scanPhrase_ends (h : scanPhrase (span ++ rest) = .ok (t, rest)) :
    (∃ s, t = .phrase s) ∧ ∃ inner, span = inner ++ ['"'] := by
  unfold scanPhrase at h
  split at h
  · cases h
  · rename_i body r hr
    cases h
    obtain ⟨inner, hinner⟩ := readQuoted_ends hr
    have hspan : span ++ rest = inner ++ ['"'] ++ rest := by
      rw [hinner, List.append_assoc]
      rfl
    exact ⟨⟨_, rfl⟩, inner, List.append_cancel_right hspan⟩

theorem scanSign_ends {afterColon : Bool} {o : Occur} (hopen : ¬ EndsWord rest)
    (h : scanSign afterColon o (span ++ rest) = .ok (t, rest)) : t = .sign o ∧ span = [] := by
  unfold scanSign at h
  split at h
  · split at h
    · cases h
    · rename_i w hw
      cases h
      exact absurd (readWord_span hw).1 hopen
  · obtain ⟨rfl, hspan⟩ := Prod.mk.inj (Except.ok.inj h)
    exact ⟨rfl, List.append_left_eq_self.1 hspan⟩

theorem scanConnective_ends {op : Connective} {c : Char} (hc : isBoundary c = false)
    (hopen : ¬ EndsWord rest) (h : scanConnective op c (span ++ rest) = .ok (t, rest)) :
    t = .join op ∧ span = [c] := by
  unfold scanConnective at h
  split at h
  · rename_i hpair
    obtain ⟨rfl, hdrop⟩ := Prod.mk.inj (Except.ok.inj h)
    obtain ⟨tail, htail⟩ := List.head?_eq_some_iff.1 hpair
    have hspan : span ++ rest = [c] ++ rest := by
      rw [htail] at hdrop ⊢
      exact congrArg (c :: ·) hdrop
    exact ⟨rfl, List.append_cancel_right hspan⟩
  · exact absurd (scanWord_span hc h).1 hopen

theorem scanComparison_ends {strict weak : Comparison}
    (h : scanComparison strict weak (span ++ rest) = (t, rest)) :
    (∃ op, t = .compare op) ∧ (span = [] ∨ span = ['=']) := by
  unfold scanComparison at h
  split at h
  · rename_i cs hcs
    cases h
    have hspan : span ++ rest = ['='] ++ rest := hcs
    exact ⟨⟨_, rfl⟩, .inr (List.append_cancel_right hspan)⟩
  · obtain ⟨rfl, hspan⟩ := Prod.mk.inj h
    exact ⟨⟨_, rfl⟩, .inl (List.append_left_eq_self.1 hspan)⟩

/-- Only the colon ends with a colon, as long as no word comes to an end here: that could have an escaped
one. -/
theorem scan_colon_iff {afterColon : Bool} {c : Char} (hc : Text.isBlank c = false)
    (hopen : ¬ EndsWord rest) (h : scan afterColon c (span ++ rest) = .ok (t, rest)) :
    t = .colon ↔ (c :: span).getLast? = some ':' := by
  have hone : ∀ {u : Token}, (u, span ++ rest) = (t, rest) → t = u ∧ span = [] := by
    intro u hu
    obtain ⟨rfl, hspan⟩ := Prod.mk.inj hu
    exact ⟨rfl, List.append_left_eq_self.1 hspan⟩
  unfold scan at h
  split at h
  case h_8 =>
    obtain ⟨⟨s, rfl⟩, inner, rfl⟩ := scanPhrase_ends h
    simp [List.getLast?_cons]
  case h_9 | h_10 =>
    obtain ⟨rfl, rfl⟩ := scanSign_ends hopen h
    simp
  case h_12 | h_13 =>
    obtain ⟨rfl, rfl⟩ := scanConnective_ends (by decide) hopen h
    simp
  case h_14 | h_15 =>
    obtain ⟨⟨op, rfl⟩, rfl | rfl⟩ := scanComparison_ends (Except.ok.inj h) <;> simp
  case h_16 => exact absurd (scanWord_span (by simp_all [isBoundary]) h).1 hopen
  all_goals
    obtain ⟨rfl, rfl⟩ := hone (Except.ok.inj h)
    simp

end Ends

/-! ## Cuts -/

/-- A text in two parts that are read one after the other. The first one is read as `us` with whatever
comes after it that does not go on with its last token. Where that is taken up, `colon` tells whether a
colon stands directly before. -/
structure Cut (afterColon : Bool) (front back : List Char) (us vs : List Token) (colon : Bool) :
    Prop where
  first : ∀ rest ws, EndsAlike back rest → LexesTo colon rest ws →
    LexesTo afterColon (front ++ rest) (us ++ ws)
  second : LexesTo colon back vs
  colon_iff : ¬ EndsWord back →
    (colon = true ↔ (afterColon = true ∧ front = []) ∨ front.getLast? = some ':')

/-- A cut in front of the first token. -/
theorem cut_blanks {afterColon : Bool} {front back : List Char} {ts : List Token}
    (hfront : ∀ c ∈ front, Text.isBlank c = true)
    (hback : LexesTo (afterColon && front.isEmpty) back ts) :
    Cut afterColon front back [] ts (afterColon && front.isEmpty) := by
  refine ⟨fun rest ws _ hws => LexesTo.blanks hfront hws, hback, fun _ => ?_⟩
  have hlast : front.getLast? ≠ some ':' := by
    intro h
    have hcolon := hfront ':' (List.mem_of_getLast? h)
    exact absurd hcolon (by decide)
  simp [hlast]

theorem EndsAlike.append_left {back rest : List Char} (front : List Char) (h : EndsAlike back rest) :
    EndsAlike (front ++ back) (front ++ rest) := by
  cases front with
  | nil => exact h
  | cons c front => exact .inl rfl

/-- A cut behind the first token, and behind what comes after it. -/
theorem Cut.token {afterColon colon : Bool} {blanks span front back : List Char} {c : Char} {t : Token}
    {us vs : List Token} (hblanks : ∀ b ∈ blanks, Text.isBlank b = true) (hc : Text.isBlank c = false)
    (hscan : scan (afterColon && blanks.isEmpty) c (span ++ (front ++ back)) = .ok (t, front ++ back))
    (h : Cut (t == .colon) front back us vs colon) :
    Cut afterColon (blanks ++ c :: (span ++ front)) back (t :: us) vs colon := by
  refine ⟨fun rest ws hend hws => ?_, h.second, fun hopen => ?_⟩
  · obtain ⟨span', hsplit, hspan⟩ := scan_span hc hscan
    obtain rfl : span = span' := List.append_cancel_right hsplit
    have htoken := LexesTo.token hc (hspan _ (hend.append_left front)) (h.first rest ws hend hws)
    have hall := LexesTo.blanks hblanks htoken
    simpa using hall
  · rw [h.colon_iff hopen]
    cases front with
    | nil =>
      rw [List.nil_append] at hscan
      simp [scan_colon_iff hc hopen hscan, List.getLast?_append]
    | cons d front => simp [List.getLast?_append, List.getLast?_cons]

namespace Lexer

theorem after_succ (l : Lexer) (n : Nat) : l.after (n + 1) = l.next.2.after n := by
  induction n with
  | zero => rfl
  | succ n ih => rw [after, ih, after]

/-- No token is cut in two at this place. -/
def Outside (l : Lexer) (place : Nat) : Prop :=
  ∀ n x, l.call n = some x → place ≤ x.start ∨ l.stop n ≤ place

theorem Outside.next {l l' : Lexer} {x : Lexeme} {place : Nat} (h : l.Outside place)
    (hnext : l.next = (some x, l')) :
    (place ≤ x.start ∨ l'.offset ≤ place) ∧ l'.Outside place := by
  have hcall : l.call 0 = some x := congrArg Prod.fst hnext
  have hfirst := h 0 x hcall
  rw [stop, l.after_succ, hnext] at hfirst
  refine ⟨hfirst, fun n y hy => ?_⟩
  have hlater := h (n + 1) y
  rw [call, stop, l.after_succ, l.after_succ, hnext] at hlater
  exact hlater hy

end Lexer

/-- There is a cut at every place where no token is cut in two. -/
theorem exists_cut {l : Lexer} {front back : List Char} {ts : List Token} {place : Nat}
    (hts : l.lexemes.mapM Lexeme.token = .ok ts) (hrest : l.rest = front ++ back)
    (hplace : l.offset + front.length = place) (houtside : l.Outside place) :
    ∃ us vs colon, ts = us ++ vs ∧ Cut l.afterColon front back us vs colon := by
  fun_induction Lexer.lexemes l generalizing front ts with
  | case1 l l' hnext =>
    obtain rfl : ts = [] := (Except.ok.inj hts).symm
    have hcall := l.next_call
    rw [hnext] at hcall
    cases hcall with
    | done hblank =>
      rw [hrest, List.forall_mem_append] at hblank
      have hback : LexesTo (l.afterColon && front.isEmpty) (back ++ []) [] :=
        LexesTo.blanks hblank.2 LexesTo.nil
      rw [List.append_nil] at hback
      exact ⟨[], [], _, rfl, cut_blanks hblank.1 hback⟩
  | case2 l x l' hnext ih =>
    obtain ⟨t, ts, hx, hts', rfl⟩ := mapM_token_cons hts
    obtain ⟨hfirst, hlater⟩ := houtside.next hnext
    have hcall := l.next_call
    rw [hnext] at hcall
    cases hcall with
    | error _ _ _ _ => cases hx
    | @token blanks cs rest c u hsplit hblank hc hscan =>
      obtain rfl : u = t := Except.ok.inj hx
      obtain ⟨span, rfl, -⟩ := scan_span hc hscan
      have hparts := hrest.symm.trans hsplit
      simp only [List.length_append] at hfirst
      rcases hfirst with hstart | hstop
      · -- in front of the token there are only blanks
        obtain ⟨blanks', rfl⟩ : front <+: blanks := by
          refine List.prefix_of_prefix_length_le ⟨back, hparts⟩ (List.prefix_append _ _) ?_
          omega
        rw [List.append_assoc] at hparts
        obtain rfl := List.append_cancel_left hparts
        have hempty : (front ++ blanks').isEmpty = (front.isEmpty && blanks'.isEmpty) := by
          cases front <;> rfl
        rw [hempty, ← Bool.and_assoc] at hscan
        rw [List.forall_mem_append] at hblank
        have htoken := LexesTo.token hc hscan (lexesTo_of_lexemes hts')
        exact ⟨[], _, _, rfl, cut_blanks hblank.1 (LexesTo.blanks hblank.2 htoken)⟩
      · obtain ⟨front', rfl⟩ : blanks ++ c :: span <+: front := by
          refine List.prefix_of_prefix_length_le ⟨rest, ?_⟩ ⟨back, hparts⟩ ?_
          · simp
          · simp only [List.length_append, List.length_cons]
            omega
        obtain rfl : rest = front' ++ back := by simpa using hparts.symm
        have hplace' : l.offset + blanks.length + (span ++ (front' ++ back)).length + 1 -
            (front' ++ back).length + front'.length = place := by
          simp only [List.length_append, List.length_cons] at hplace ⊢
          omega
        obtain ⟨us, vs, colon, rfl, hcut⟩ := ih hts' rfl hplace' hlater
        have hbehind := hcut.token hblank hc hscan
        refine ⟨u :: us, vs, colon, rfl, ?_⟩
        simpa using hbehind

/-! ## Colons that count -/

/-- A sign directly before a digit. -/
def SignedDigit (cs : List Char) : Prop :=
  ∃ sign digit rest, cs = sign :: digit :: rest ∧ (sign = '+' ∨ sign = '-') ∧ digit.isDigit = true

theorem SignedDigit.not_endsWord {cs : List Char} (h : SignedDigit cs) : ¬ EndsWord cs := by
  obtain ⟨sign, digit, rest, rfl, rfl | rfl, -⟩ := h <;>
    exact fun hends => absurd (hends _ rfl) (by decide)

/-- Elsewhere a colon in front makes no difference to a token. -/
theorem scan_forget {c : Char} {cs : List Char} (h : ¬ SignedDigit (c :: cs)) :
    scan true c cs = scan false c cs := by
  have hsign : ∀ {o : Occur}, (c = '+' ∨ c = '-') → scanSign true o cs = scanSign false o cs := by
    intro o hc
    have hdigit : cs.head?.any Char.isDigit = false := by
      cases cs with
      | nil => rfl
      | cons d ds =>
        rw [List.head?_cons, Option.any_some]
        by_contra hd
        exact h ⟨c, d, ds, rfl, hc, by simpa using hd⟩
    simp [scanSign, hdigit]
  unfold scan
  split
  case h_9 => exact hsign (.inl rfl)
  case h_10 => exact hsign (.inr rfl)
  all_goals rfl

theorem scan_digit {afterColon : Bool} {c : Char} {cs : List Char} (hc : c.isDigit = true) :
    scan afterColon c cs = scanWord (c :: cs) := by
  unfold scan
  split
  case h_16 => rfl
  all_goals exact absurd hc (by decide)

theorem Word.token_ne_colon (w : Word) : w.token ≠ .colon := by
  unfold token
  dsimp only
  split_ifs <;> simp

namespace LexesTo

theorem forget {cs : List Char} {ts : List Token} (h : LexesTo true cs ts) (hfree : ¬ SignedDigit cs) :
    LexesTo false cs ts := by
  intro offset
  have hnext : Lexer.next ⟨cs, offset, true⟩ = Lexer.next ⟨cs, offset, false⟩ := by
    cases cs with
    | nil => rfl
    | cons c cs =>
      cases hc : Text.isBlank c with
      | true => rw [Lexer.next_blank hc, Lexer.next_blank hc]
      | false =>
        simp only [Lexer.next, List.dropWhile_cons, List.takeWhile_cons, hc, Bool.false_eq_true,
          if_false, List.length_nil, Nat.add_zero, beq_self_eq_true, Bool.and_true, scan_forget hfree]
  rw [← Lexer.lexemes_congr hnext]
  exact h offset

theorem token_inv {afterColon : Bool} {c : Char} {cs : List Char} {ts : List Token}
    (hc : Text.isBlank c = false) (h : LexesTo afterColon (c :: cs) ts) :
    ∃ t rest ts', scan afterColon c cs = .ok (t, rest) ∧ LexesTo (t == .colon) rest ts' ∧
      ts = t :: ts' := by
  have hts := h 0
  have hcall := Lexer.next_call ⟨c :: cs, 0, afterColon⟩
  generalize hnext : Lexer.next ⟨c :: cs, 0, afterColon⟩ = result at hcall
  have hempty : ∀ {blanks ds : List Char} {d : Char}, c :: cs = blanks ++ d :: ds →
      (∀ b ∈ blanks, Text.isBlank b = true) → blanks = [] := by
    intro blanks ds d hsplit hblank
    cases blanks with
    | nil => rfl
    | cons b bs =>
      obtain rfl : c = b := (List.cons.inj hsplit).1
      rw [hblank c List.mem_cons_self] at hc
      cases hc
  cases hcall with
  | done hblank =>
    rw [hblank c List.mem_cons_self] at hc
    cases hc
  | token hsplit hblank _ hscan =>
    obtain rfl := hempty hsplit hblank
    obtain ⟨rfl, rfl⟩ := List.cons.inj hsplit
    rw [Lexer.lexemes_cons hnext] at hts
    obtain ⟨t, ts', ht, hts', rfl⟩ := mapM_token_cons hts
    cases ht
    exact ⟨_, _, ts', by simpa using hscan, lexesTo_of_lexemes hts', rfl⟩
  | error hsplit hblank _ hscan =>
    rw [Lexer.lexemes_cons hnext] at hts
    obtain ⟨t, ts', ht, -⟩ := mapM_token_cons hts
    cases ht

/-- A sign between a colon and a digit becomes a token of its own when the colon is forgotten. -/
theorem sign_apart {cs : List Char} {ts : List Token} (h : LexesTo true cs ts)
    (hsigned : SignedDigit cs) : ∃ ts', LexesTo false cs ts' ∧ ts'.length = ts.length + 1 := by
  obtain ⟨c, digit, rest, rfl, hc, hdigit⟩ := hsigned
  obtain ⟨o, hscan⟩ : ∃ o, ∀ afterColon cs, scan afterColon c cs = scanSign afterColon o cs := by
    rcases hc with rfl | rfl
    · exact ⟨.required, fun _ _ => rfl⟩
    · exact ⟨.prohibited, fun _ _ => rfl⟩
  have hblank : Text.isBlank c = false := by
    rcases hc with rfl | rfl <;> decide
  have hblank' : Text.isBlank digit = false := by
    have hboundary := not_isBoundary_of_isDigit hdigit
    simp_all [isBoundary]
  obtain ⟨t, rest', us, hglued, hus, rfl⟩ := token_inv hblank h
  rw [hscan, scanSign, List.head?_cons, Option.any_some, hdigit] at hglued
  cases hw : readWord (digit :: rest) with
  | none =>
    rw [hw] at hglued
    cases hglued
  | some w =>
    rw [hw] at hglued
    cases hglued
    have hword : scan false digit rest = .ok (w.token, w.rest) := by
      have htext := readWord_text_ne (not_isBoundary_of_isDigit hdigit) hw
      rw [scan_digit hdigit, scanWord_of_readWord hw htext]
    have hcolon : (w.token == .colon) = false := beq_eq_false_iff_ne.2 w.token_ne_colon
    have hrest : LexesTo false (digit :: rest) (w.token :: us) :=
      token hblank' hword (by rw [hcolon]; exact hus)
    exact ⟨.sign o :: w.token :: us, token hblank (by rw [hscan]; rfl) hrest, rfl⟩

end LexesTo

/-! ## Whole texts -/

/-- Blanks at a place that is not inside a token, in a text that can be read. -/
theorem tokenize_blanks_iff {front blanks back : String} {ts : List Token}
    (hts : tokenize (front ++ back) = .ok ts) (hblanks : ∀ c ∈ blanks.toList, Text.isBlank c = true)
    (houtside : (Lexer.ofText (front ++ back)).Outside front.length) :
    tokenize (front ++ blanks ++ back) = .ok ts ↔
      blanks = "" ∨ ¬ (front.toList.getLast? = some ':' ∧ SignedDigit back.toList) := by
  by_cases hempty : blanks = ""
  · simpa [hempty] using hts
  have hplace : (Lexer.ofText (front ++ back)).offset + front.toList.length = front.length := by
    rw [String.length_toList]
    exact Nat.zero_add _
  obtain ⟨us, vs, colon, rfl, hcut⟩ := exists_cut hts String.toList_append hplace houtside
  obtain ⟨b, bs, hbs⟩ := List.exists_cons_of_ne_nil (mt String.toList_eq_nil_iff.1 hempty)
  -- behind the blanks there is no colon any more
  have hread : ∀ {ws : List Token}, LexesTo false back.toList ws →
      tokenize (front ++ blanks ++ back) = .ok (us ++ ws) := by
    intro ws hws
    have hend : EndsWord (blanks.toList ++ back.toList) := by
      rw [hbs]
      exact endsWord_cons _ (by simp [isBoundary, hblanks b (by simp [hbs])])
    have hblank : LexesTo colon (blanks.toList ++ back.toList) ws :=
      LexesTo.blanks hblanks (by simpa [hbs] using hws)
    have hall := hcut.first _ ws (.inr hend) hblank
    refine LexesTo.tokenize ?_
    simpa [Lexer.ofText] using hall
  rw [or_iff_right hempty]
  cases colon with
  | false =>
    refine iff_of_true (hread hcut.second) ?_
    rintro ⟨hcolon, hsigned⟩
    exact absurd ((hcut.colon_iff hsigned.not_endsWord).2 (.inr hcolon)) (by decide)
  | true =>
    by_cases hsigned : SignedDigit back.toList
    · obtain ⟨ws, hws, hlength⟩ := hcut.second.sign_apart hsigned
      have hcolon : front.toList.getLast? = some ':' := by
        simpa [Lexer.ofText] using hcut.colon_iff hsigned.not_endsWord
      refine iff_of_false (fun hsame => ?_) (not_not_intro ⟨hcolon, hsigned⟩)
      have hts' := List.append_cancel_left (Except.ok.inj ((hread hws).symm.trans hsame))
      rw [hts'] at hlength
      omega
    · exact iff_of_true (hread (hcut.second.forget hsigned)) fun h => hsigned h.2

/-- Blanks behind the signed number change nothing, and a blank in front of it takes the sign away. -/
theorem tokenize_blanks_iff_number :
    let ts : List Token := [.term "f", .colon, .term "-5", .term "g"]
    tokenize "f:-5 g" = .ok ts ∧ tokenize ("f:-5" ++ "\t\n" ++ " g") = .ok ts ∧
      tokenize ("f:" ++ " " ++ "-5 g") ≠ .ok ts := by
  intro ts
  let l := Lexer.ofText "f:-5 g"
  have hts : tokenize "f:-5 g" = .ok ts := by decide +kernel
  have hspans : ∀ n x, l.call n = some x → (x.start, l.stop n) ∈ [(0, 1), (1, 2), (2, 4), (5, 6)] := by
    intro n x hx
    have hcalls : ∀ n < 5, ∀ start ∈ (l.call n).map Lexeme.start,
        (start, l.stop n) ∈ [(0, 1), (1, 2), (2, 4), (5, 6)] := by
      decide +kernel
    by_cases hn : n < 5
    · exact hcalls n hn x.start (by rw [hx]; rfl)
    · have hfinal : Lexer.Final (l.call 4) := by
        rw [Option.isNone_iff_eq_none.1 (show (l.call 4).isNone = true by decide +kernel)]
        exact fun y hy => nomatch hy
      rw [(Lexer.call_after_final hfinal (Nat.not_lt.1 hn)).1] at hx
      cases hx
  have hat : ∀ front blanks back : String, front ++ back = "f:-5 g" → front.length ∈ [2, 4] →
      blanks.toList.all Text.isBlank = true → (tokenize (front ++ blanks ++ back) = .ok ts ↔
        blanks = "" ∨ ¬ (front.toList.getLast? = some ':' ∧ SignedDigit back.toList)) := by
    intro front blanks back htext hplace hblanks
    refine tokenize_blanks_iff (htext ▸ hts) (List.all_eq_true.1 hblanks) fun n x hx => ?_
    rw [htext] at hx ⊢
    have hspan : (x.start, (Lexer.ofText "f:-5 g").stop n) ∈ _ := hspans n x hx
    simp only [List.mem_cons, Prod.mk.injEq, List.not_mem_nil, or_false] at hplace hspan
    omega
  refine ⟨hts, (hat "f:-5" "\t\n" " g" rfl (by decide) rfl).2 (.inr ?_), fun hsame => ?_⟩
  · rintro ⟨hcolon, -⟩
    exact absurd hcolon (by decide)
  · rcases (hat "f:" " " "-5 g" rfl (by decide) rfl).1 hsame with hempty | hnumber
    · exact absurd hempty (by decide)
    · exact hnumber ⟨rfl, '-', '5', _, rfl, .inr rfl, rfl⟩

end SearchQuery
