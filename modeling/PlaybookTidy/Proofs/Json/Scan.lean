import PlaybookTidy.Proofs.Json.Grammar

/-!
The readers take what the grammar derives: strings whose surrogates are paired are read as their
text, and any value is passed over.
-/

namespace PlaybookTidy.Json

variable {s r t e : List Char} {c : Char} {v : Document}

section Numbers

theorem isDigit_eq (c : Char) : isDigit c = c.isDigit := rfl

def NoDigit (s : List Char) : Prop := s.head?.any isDigit = false

theorem NoDigit.of_ends (h : Ends r) : NoDigit r := by
  cases r with
  | nil => rfl
  | cons c r =>
    have hc := h c rfl
    rw [inNumber, Bool.or_eq_false_iff] at hc
    exact hc.1

theorem IsFraction.noDigit (h : IsFraction s) : NoDigit (s ++ r) := by
  obtain ⟨ds, -, rfl⟩ := h
  rfl

theorem IsExponent.noDigit (h : IsExponent s) : NoDigit (s ++ r) := by
  obtain ⟨x, sign, ds, hx, -, -, rfl⟩ := h
  simp only [List.mem_cons, List.not_mem_nil, or_false] at hx
  rcases hx with rfl | rfl <;> rfl

theorem NoDigit.exponent (he : e = [] ∨ IsExponent e) (hr : Ends r) : NoDigit (e ++ r) := by
  rcases he with rfl | he
  · exact .of_ends hr
  · exact he.noDigit

theorem dropDigits_append (h : ∀ c ∈ t, c.isDigit) (hr : NoDigit r) : dropDigits (t ++ r) = r := by
  rw [dropDigits, List.dropWhile_append_of_pos fun c hc => isDigit_eq c ▸ h c hc]
  cases r with
  | nil => rfl
  | cons c r => exact List.dropWhile_cons_of_neg (Bool.eq_false_iff.1 hr)

/-- An exponent is passed over whatever its digits are. -/
theorem skipExponent_eq {sign ds : List Char} (hsign : sign ∈ [[], ['+'], ['-']])
    (hds : AreDigits ds) (hr : NoDigit r) : skipExponent (sign ++ ds ++ r) = .ok r := by
  obtain ⟨c, ds, rfl⟩ := List.exists_cons_of_ne_nil hds.1
  have hc : c.isDigit := hds.2 c (by simp)
  have hdrop := dropDigits_append (fun d hd => hds.2 d (List.mem_cons_of_mem _ hd)) hr
  simp only [List.mem_cons, List.not_mem_nil, or_false] at hsign
  rcases hsign with rfl | rfl | rfl
  · have hplus : c ≠ '+' := by
      rintro rfl
      exact absurd hc (by decide)
    have hminus : c ≠ '-' := by
      rintro rfl
      exact absurd hc (by decide)
    simp [skipExponent, isDigit_eq, hc, hdrop, hplus, hminus]
  · simp [skipExponent, isDigit_eq, hc, hdrop]
  · simp [skipExponent, isDigit_eq, hc, hdrop]

theorem skipOptionalExponent_eq (he : e = [] ∨ IsExponent e) (hr : Ends r) :
    skipOptionalExponent (e ++ r) = .ok r := by
  rcases he with rfl | ⟨x, sign, ds, hx, hsign, hds, rfl⟩
  · cases r with
    | nil => rfl
    | cons c r =>
      have hc : isExponentLetter c = false := by
        rw [← Bool.not_eq_true, isExponentLetter, Bool.or_eq_true, decide_eq_true_eq,
          decide_eq_true_eq]
        rintro (rfl | rfl) <;> exact absurd (hr _ rfl) (by decide)
      simp [skipOptionalExponent, hc]
  · have hx : isExponentLetter x := by
      simp only [List.mem_cons, List.not_mem_nil, or_false] at hx
      rcases hx with rfl | rfl <;> rfl
    simp only [List.cons_append, skipOptionalExponent, if_pos hx]
    exact skipExponent_eq hsign hds (.of_ends hr)

/-- A number is passed over up to where it ends. -/
theorem skipNumber_eq {f : List Char} (hs : IsWhole s) (hf : f = [] ∨ IsFraction f)
    (he : e = [] ∨ IsExponent e) (hr : Ends r) : skipNumber (s ++ (f ++ (e ++ r))) = .ok r := by
  obtain ⟨c, t, rfl, hc⟩ := hs.head
  have hnext : NoDigit (f ++ (e ++ r)) := by
    rcases hf with rfl | hf
    · rw [List.nil_append]
      exact .exponent he hr
    · exact hf.noDigit
  -- after a zero in front there is no digit, since it is the whole part
  have hzero : ¬ (c = '0' ∧ (t ++ (f ++ (e ++ r))).head?.any isDigit) := by
    rintro ⟨rfl, hnext'⟩
    cases hs.2 rfl
    exact Bool.false_ne_true (hnext.symm.trans hnext')
  have hdrop : dropDigits (c :: (t ++ (f ++ (e ++ r)))) = f ++ (e ++ r) :=
    dropDigits_append hs.1.2 hnext
  rw [List.cons_append, skipNumber]
  simp only [isDigit_eq, hc, hdrop, Bool.and_eq_true, decide_eq_true_eq, if_neg hzero]
  rcases hf with rfl | ⟨ds, hds, rfl⟩
  · have hpoint : (e ++ r).head? ≠ some '.' := by
      intro h
      rcases he with rfl | ⟨x, sign, ds, hx, -, -, rfl⟩
      · exact absurd (hr '.' h) (by decide)
      · cases h
        simp at hx
    simp only [List.nil_append, Bool.not_true, Bool.false_eq_true, if_false]
    split
    case h_1 heq => exact absurd (congrArg List.head? heq) hpoint
    case h_2 => exact skipOptionalExponent_eq he hr
  · have hdigit : (ds ++ (e ++ r)).head?.any isDigit := by
      obtain ⟨d, ds, rfl⟩ := List.exists_cons_of_ne_nil hds.1
      exact hds.2 d (by simp)
    have hrest := dropDigits_append hds.2 (NoDigit.exponent he hr)
    simp only [List.cons_append, Bool.not_true, Bool.false_eq_true, if_false, hdigit, if_true, hrest]
    exact skipOptionalExponent_eq he hr

/-- The parts of a number. -/
theorem Number.parts (h : Number s v) : ∃ sign w f e, sign ∈ [[], ['-']] ∧ IsWhole w ∧
    (f = [] ∨ IsFraction f) ∧ (e = [] ∨ IsExponent e) ∧ s = sign ++ (w ++ (f ++ e)) := by
  cases h with
  | natural h => exact ⟨[], _, [], [], by simp, h, Or.inl rfl, Or.inl rfl, by simp⟩
  | negative h => exact ⟨['-'], _, [], [], by simp, h, Or.inl rfl, Or.inl rfl, by simp⟩
  | real hsign h hf he => exact ⟨_, _, _, _, hsign, h, hf, he, by simp⟩

theorem skipScalar_number (h : Number t v) (hr : Ends r) : skipScalar (t ++ r) = .ok r := by
  obtain ⟨sign, w, f, e, hsign, hw, hf, he, rfl⟩ := h.parts
  have hskip := skipNumber_eq hw hf he hr
  simp only [List.mem_cons, List.not_mem_nil, or_false] at hsign
  simp only [List.append_assoc] at hskip ⊢
  rcases hsign with rfl | rfl
  · obtain ⟨c, t, rfl, hc⟩ := hw.head
    have hminus : c ≠ '-' := by
      rintro rfl
      exact absurd hc (by decide)
    have hquote : c ≠ '"' := by
      rintro rfl
      exact absurd hc (by decide)
    simpa [skipScalar, isDigit_eq, hc, hminus, hquote] using hskip
  · exact hskip

end Numbers

section Strings

theorem readHex_eq {a b c d : Char} {i j k l : Nat} (ha : IsHexDigit a i) (hb : IsHexDigit b j)
    (hc : IsHexDigit c k) (hd : IsHexDigit d l) (s : List Char) :
    readHex (a :: b :: c :: d :: s) = .ok (((i * 16 + j) * 16 + k) * 16 + l, s) := by
  simp only [readHex, hexValue?_of_isHexDigit ha, hexValue?_of_isHexDigit hb,
    hexValue?_of_isHexDigit hc, hexValue?_of_isHexDigit hd]

theorem skipEscape_letter {l : Char} (hl : (l, c) ∈ letters) (s : List Char) :
    skipEscape (l :: s) = .ok s := by
  rw [skipEscape, letterEscape?_of_mem hl]
  rintro rfl
  exact u_not_mem_letters hl

theorem readEscape_letter {l : Char} (hl : (l, c) ∈ letters) (s : List Char) :
    readEscape (l :: s) = .ok (c, s) := by
  rw [readEscape, letterEscape?_of_mem hl]
  rintro rfl
  exact u_not_mem_letters hl

theorem isLeading_iff (n : Nat) : isLeading n ↔ IsHigh n := by
  simp [isLeading, IsHigh]

theorem isTrailing_iff (n : Nat) : isTrailing n ↔ IsLow n := by
  simp [isTrailing, IsLow]

theorem readEscape_unit {n : Nat} (h : readHex s = .ok (n, r)) (hhigh : ¬ IsHigh n)
    (hlow : ¬ IsLow n) : readEscape ('u' :: s) = .ok (Char.ofNat n, r) := by
  rw [← isLeading_iff] at hhigh
  rw [← isTrailing_iff] at hlow
  simp only [readEscape, h, if_neg hhigh, if_neg hlow]

/-- Two escapes of the halves of a surrogate pair are read as one character. -/
theorem readEscape_pair {n m : Nat} {s' : List Char} (h : readHex s = .ok (n, '\\' :: 'u' :: s'))
    (h' : readHex s' = .ok (m, r)) (hhigh : IsHigh n) (hlow : IsLow m) :
    readEscape ('u' :: s) =
      .ok (Char.ofNat (0x10000 + (n - 0xD800) * 0x400 + (m - 0xDC00)), r) := by
  have hnot : ¬ isTrailing n := by
    rw [isTrailing_iff]
    unfold IsHigh at hhigh
    unfold IsLow
    omega
  rw [← isLeading_iff] at hhigh
  rw [← isTrailing_iff] at hlow
  simp only [readEscape, h, if_neg hnot, if_pos hhigh, readTrailing, h', if_pos hlow]

theorem Pieces.of_unit {n : Nat} {ps : List Piece} (h : Pieces (.unit n :: ps) s r) :
    ∃ s₁ s₂, s = '\\' :: 'u' :: s₁ ∧ readHex s₁ = .ok (n, s₂) ∧ Pieces ps s₂ r := by
  cases h with
  | unit ha hb hc hd h => exact ⟨_, _, rfl, readHex_eq ha hb hc hd _, h⟩

theorem skipString_escape (h : skipEscape s = .ok r) : skipString ('\\' :: s) = skipString r := by
  rw [skipString]
  split
  case h_1 he => cases h.symm.trans he
  case h_2 hr =>
    cases h.symm.trans hr
    rfl

theorem readChars_escape (h : readEscape s = .ok (c, r)) (held : List Char) :
    readChars held ('\\' :: s) = readChars (c :: held) r := by
  rw [readChars]
  split
  case h_1 he => cases h.symm.trans he
  case h_2 hr =>
    cases h.symm.trans hr
    rfl

/-- A string is passed over piece by piece up to its closing quote. -/
theorem skipString_eq {ps : List Piece} (h : Pieces ps s r) : skipString s = .ok r := by
  induction h with
  | close => rw [skipString]
  | plain hquote hslash hc h ih =>
    rw [skipString]
    · rw [if_neg (Nat.not_lt.2 hc), ih]
    · simpa using hquote
    · simpa using hslash
  | letter hl h ih => rw [skipString_escape (skipEscape_letter hl _), ih]
  | unit ha hb hc hd h ih =>
    have hskip := readHex_eq ha hb hc hd
    rw [skipString_escape, ih]
    simp [skipEscape, hskip]

/-- The text of a string is read if its surrogates are paired. -/
theorem readChars_eq {ps : List Piece} (h : Pieces ps s r) (ht : joined? ps = some t)
    (held : List Char) : readChars held s = .ok (String.ofList (held.reverse ++ t), r) := by
  -- along the pieces, where a leading surrogate is looked at together with the piece behind it
  fun_induction joined? ps generalizing s t held with
  | case1 =>
    cases h
    cases ht
    rw [readChars, List.append_nil]
  | case2 c ps ih =>
    obtain ⟨u, hu, rfl⟩ := Option.map_eq_some_iff.1 ht
    cases h with
    | plain hquote hslash hc h =>
      rw [readChars]
      · rw [if_neg (Nat.not_lt.2 hc), ih h hu]
        simp
      · simpa using hquote
      · simpa using hslash
    | letter hl h =>
      rw [readChars_escape (readEscape_letter hl _), ih h hu]
      simp
  | case3 n m ps hn ih =>
    obtain ⟨u, hu, rfl⟩ := Option.map_eq_some_iff.1 ht
    obtain ⟨s₁, s₂, rfl, hhex, h⟩ := h.of_unit
    obtain ⟨s₃, s₄, rfl, hhex', h⟩ := h.of_unit
    rw [readChars_escape (readEscape_pair hhex hhex' hn.1 hn.2), ih h hu]
    simp
  | case4 n m ps hn hn' => cases ht
  | case5 n m ps hn hn' ih =>
    obtain ⟨u, hu, rfl⟩ := Option.map_eq_some_iff.1 ht
    obtain ⟨s₁, s₂, rfl, hhex, h⟩ := h.of_unit
    rw [not_or] at hn'
    rw [readChars_escape (readEscape_unit hhex hn'.1 hn'.2), ih h hu]
    simp
  | case6 n ps hne hn => cases ht
  | case7 n ps hne hn ih =>
    obtain ⟨u, hu, rfl⟩ := Option.map_eq_some_iff.1 ht
    obtain ⟨s₁, s₂, rfl, hhex, h⟩ := h.of_unit
    rw [not_or] at hn
    rw [readChars_escape (readEscape_unit hhex hn.1 hn.2), ih h hu]
    simp

end Strings

section Values

variable {s₁ s₂ : List Char} {fuel : Nat} {vs : List Document}
  {ms : List (Option String × Document)}

theorem skipColon_eq (h : Space s (':' :: r)) : skipColon s = .ok r := by
  simp only [skipColon, h.dropSpace_cons rfl]

theorem skipKey_eq {ps : List Piece} (hquote : Space s ('"' :: s₁)) (hps : Pieces ps s₁ s₂)
    (hcolon : Space s₂ (':' :: r)) : skipKey false s = .ok r := by
  simp only [skipKey, hquote.dropSpace_cons rfl, Bool.false_eq_true, if_false, skipString_eq hps]
  exact skipColon_eq hcolon

theorem afterComma_eq (close : Char) (s : List Char) : afterComma false close s = .ok (dropSpace s) :=
  rfl

theorem dropSpace_dropSpace (s : List Char) : dropSpace (dropSpace s) = dropSpace s :=
  (Space.of_dropSpace s).dropSpace.symm

theorem skipKey_dropSpace (s : List Char) : skipKey false (dropSpace s) = skipKey false s := by
  simp only [skipKey, dropSpace_dropSpace]

theorem skipValue_dropSpace (fuel : Nat) (s : List Char) :
    skipValue none (fuel + 1) (dropSpace s) = skipValue none (fuel + 1) s := by
  simp only [skipValue, dropSpace_dropSpace]

theorem skipValue_scalar (h : dropSpace s = c :: r) (hlist : c ≠ '[') (hobject : c ≠ '\x7b') :
    skipValue none (fuel + 1) s = skipScalar (c :: r) := by
  simp [skipValue, h, hlist, hobject]

theorem skipValue_number (h : Space s (t ++ r)) (hv : Number t v) (hr : Ends r) :
    skipValue none (fuel + 1) s = .ok r := by
  obtain ⟨c, t, rfl, hc⟩ := hv.head
  have hs := h.dropSpace_cons (not_isSpace_of_inNumber (hv.inNumber c (by simp)))
  rw [skipValue_scalar hs]
  · exact skipScalar_number hv hr
  all_goals
    rintro rfl
    exact absurd hc (by decide)

theorem skipValue_array (h : Space s ('[' :: r)) :
    skipValue none (fuel + 1) s = skipItems none fuel true r := by
  simp [skipValue, h.dropSpace_cons rfl]

theorem skipValue_object (h : Space s ('\x7b' :: r)) :
    skipValue none (fuel + 1) s = skipMembers none fuel true r := by
  simp [skipValue, h.dropSpace_cons rfl]

/-- An item that is passed over takes one step of the list. -/
theorem skipItems_item {first : Bool} (h : Separated first s s₁)
    (hv : Derives (.value v) s₁ s₂) (hskip : skipValue none (fuel + 1) s₁ = .ok s₂) :
    skipItems none (fuel + 2) first s = skipItems none (fuel + 1) false s₂ := by
  rw [← skipValue_dropSpace] at hskip
  cases first with
  | true =>
    cases show s = s₁ from h
    -- a value does not begin with the bracket that closes the list
    obtain ⟨c, t, hs, hc⟩ := hv.head
    rw [hs] at hskip
    simp [skipItems, hs, hskip, bind, Except.bind]
  | false => simp [skipItems, Space.dropSpace_cons h rfl, afterComma_eq, hskip, bind, Except.bind]

/-- A member that is passed over takes one step of the object. -/
theorem skipMembers_member {first : Bool} {t : List Char} (h : Separated first s s₁)
    (hquote : Space s₁ ('"' :: t)) (hkey : skipKey false s₁ = .ok s₂)
    (hskip : skipValue none fuel s₂ = .ok r) :
    skipMembers none (fuel + 1) first s = skipMembers none fuel false r := by
  have hs := hquote.dropSpace_cons rfl
  rw [← skipKey_dropSpace, hs] at hkey
  cases first with
  | true =>
    cases show s = s₁ from h
    simp [skipMembers, hs, hkey, hskip, bind, Except.bind]
  | false =>
    simp [skipMembers, Space.dropSpace_cons h rfl, afterComma_eq, hs, hkey, hskip, bind,
      Except.bind]

/-- A form is passed over with enough steps. A value takes one for itself, and a list one for each item
and one for its end; each of them takes a character of the text. -/
def Form.Skips (s r : List Char) : Form → Prop
  | .value _ => ∀ fuel, 2 * s.length < fuel → skipValue none fuel s = .ok r
  | .items first _ => ∀ fuel, 2 * s.length + 1 < fuel → skipItems none fuel first s = .ok r
  | .members first _ => ∀ fuel, 2 * s.length + 1 < fuel → skipMembers none fuel first s = .ok r

/-- By induction on the derivation, every form is passed over with enough steps. -/
theorem Derives.skips {f : Form} (h : Derives f s r) (hr : Ends r) : f.Skips s r := by
  -- What a part takes of the text is read before it, so the steps left are enough for it.
  induction h with
  | nullWord h | trueWord h | falseWord h =>
    rintro (_ | fuel) hfuel
    · omega
    · rw [skipValue_scalar (h.dropSpace_cons rfl) (by decide) (by decide)]
      rfl
  | number h hv =>
    rintro (_ | fuel) hfuel
    · omega
    · exact skipValue_number h hv hr
  | string h hps =>
    rintro (_ | fuel) hfuel
    · omega
    · rw [skipValue_scalar (h.dropSpace_cons rfl) (by decide) (by decide)]
      exact skipString_eq hps
  | array h hvs ih =>
    rintro (_ | fuel) hfuel
    · omega
    · have hlen := h.length_le
      rw [List.length_cons] at hlen
      rw [skipValue_array h]
      exact ih hr fuel (by omega)
  | object h hms ih =>
    rintro (_ | fuel) hfuel
    · omega
    · have hlen := h.length_le
      rw [List.length_cons] at hlen
      rw [skipValue_object h]
      exact ih hr fuel (by omega)
  | closeArray h =>
    rintro (_ | fuel) hfuel
    · omega
    · simp only [skipItems, h.dropSpace_cons rfl]
  | closeObject h =>
    rintro (_ | fuel) hfuel
    · omega
    · simp only [skipMembers, h.dropSpace_cons rfl]
  | item h hv hvs ihv ihvs =>
    rintro (_ | _ | fuel) hfuel
    · omega
    · omega
    · have hlen := h.length_le
      have hlen' := hv.length_lt
      rw [skipItems_item h hv (ihv hvs.items_ends (fuel + 1) (by omega))]
      exact ihvs hr (fuel + 1) (by omega)
  | member h hquote hps hcolon hv hms ihv ihms =>
    rintro (_ | fuel) hfuel
    · omega
    · have hlen := h.length_le
      have := hquote.length_le
      have := hps.length_lt
      have := hcolon.length_le
      have := hv.length_lt
      simp only [List.length_cons] at *
      have hvalue := ihv hms.members_ends fuel (by omega)
      rw [skipMembers_member h hquote (skipKey_eq hquote hps hcolon) hvalue]
      exact ihms hr fuel (by omega)

/-- Any value is passed over. -/
theorem skipAny_eq (h : Derives (.value v) s r) (hr : Ends r) : skipAny s = .ok r :=
  h.skips hr (stepsFor s) (by rw [stepsFor]; omega)

theorem readString_eq {ps : List Piece} {k : String} (h : Pieces ps s r)
    (hk : stringOf ps = some k) : readString s = .ok (k, r) := by
  obtain ⟨t, ht, rfl⟩ := Option.map_eq_some_iff.1 hk
  exact readChars_eq h ht []

end Values

end PlaybookTidy.Json
