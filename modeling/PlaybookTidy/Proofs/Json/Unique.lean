import PlaybookTidy.Proofs.Json.Grammar

/-!
A JSON text says one thing: no text denotes two values.
-/

namespace PlaybookTidy.Json

variable {s r r' s₁ s₂ t : List Char} {c : Char} {v w : Document}

section Numbers

/-- What is no integer has a point or an exponent. -/
theorem exists_mark {f e : List Char} (hf : f = [] ∨ IsFraction f) (he : e = [] ∨ IsExponent e)
    (hfe : f ≠ [] ∨ e ≠ []) : ∃ c ∈ f ++ e, c ∈ ['.', 'e', 'E'] := by
  rcases hf with rfl | ⟨ds, -, rfl⟩
  · rcases he with rfl | ⟨x, sign, ds, hx, -, -, rfl⟩
    · simp at hfe
    · exact ⟨x, by simp, List.mem_cons_of_mem _ hx⟩
  · exact ⟨'.', by simp, by simp⟩

theorem Number.eq_value (h : Number s v) :
    (IsWhole s ∧ v = .integer (Nat.ofDigitChars 10 s 0)) ∨
    (∃ t, s = '-' :: t ∧ IsWhole t ∧ v = .integer (-(Nat.ofDigitChars 10 t 0 : Nat))) ∨
    ((∃ c ∈ s, c ∈ ['.', 'e', 'E']) ∧ v = .real s) := by
  cases h with
  | natural h => exact Or.inl ⟨h, rfl⟩
  | negative h => exact Or.inr (Or.inl ⟨_, rfl, h, rfl⟩)
  | real hsign h hf he hfe =>
    obtain ⟨c, hc, hm⟩ := exists_mark hf he hfe
    refine Or.inr (Or.inr ⟨⟨c, ?_, hm⟩, rfl⟩)
    rw [List.append_assoc]
    exact List.mem_append_right _ hc

theorem not_mark_of_isWhole (h : IsWhole s) : ¬ ∃ c ∈ s, c ∈ ['.', 'e', 'E'] := by
  rintro ⟨c, hc, hm⟩
  have hd := h.1.2 c hc
  simp only [List.mem_cons, List.not_mem_nil, or_false] at hm
  rcases hm with rfl | rfl | rfl <;> exact absurd hd (by decide)

theorem not_minus_of_isWhole : ¬ IsWhole ('-' :: s) :=
  fun h => absurd (h.1.2 '-' (by simp)) (by decide)

/-- A text of a number has one value. -/
theorem Number.unique (hv : Number s v) (hw : Number s w) : v = w := by
  rcases hv.eq_value with ⟨hs, rfl⟩ | ⟨t, rfl, ht, rfl⟩ | ⟨hm, rfl⟩ <;>
    rcases hw.eq_value with ⟨hs', rfl⟩ | ⟨t', h', ht', rfl⟩ | ⟨hm', rfl⟩
  · rfl
  · exact absurd (h' ▸ hs) not_minus_of_isWhole
  · exact absurd hm' (not_mark_of_isWhole hs)
  · exact absurd hs' not_minus_of_isWhole
  · rw [(List.cons.inj h').2]
  · exact absurd (by simpa using hm') (not_mark_of_isWhole ht)
  · exact absurd hm (not_mark_of_isWhole hs')
  · exact absurd (by simpa [h'] using hm) (not_mark_of_isWhole ht')
  · rfl

/-- Where a number ends is seen from what follows. -/
theorem Number.cut {v v' : Document} {t' : List Char} (hv : Number t v) (hv' : Number t' v')
    (hr : Ends r) (hr' : Ends r') (h : t ++ r = t' ++ r') : t = t' ∧ r = r' := by
  have htake {t r : List Char} {v : Document} (hv : Number t v) (hr : Ends r) :
      (t ++ r).takeWhile Json.inNumber = t := by
    rw [List.takeWhile_append_of_pos hv.inNumber]
    cases r with
    | nil => simp
    | cons c r => simp [hr c rfl]
  have ht : t = t' := by rw [← htake hv hr, h, htake hv' hr']
  subst ht
  exact ⟨rfl, List.append_cancel_left h⟩

end Numbers

section Strings

theorem IsHexDigit.unique {n m : Nat} (h : IsHexDigit c n) (h' : IsHexDigit c m) : n = m :=
  Option.some.inj ((hexValue?_of_isHexDigit h).symm.trans (hexValue?_of_isHexDigit h'))

/-- There is one way to cut a string into pieces, and one place where it ends. -/
theorem Pieces.unique {ps ps' : List Piece} (h : Pieces ps s r) (h' : Pieces ps' s r') :
    ps = ps' ∧ r = r' := by
  -- The first character tells the piece: a quote closes, a backslash escapes, any other is plain.
  induction h generalizing ps' with
  | close =>
    cases h' with
    | close => exact ⟨rfl, rfl⟩
    | plain hquote => exact absurd rfl hquote
  | plain hquote hslash hc h ih =>
    cases h' with
    | close => exact absurd rfl hquote
    | plain _ _ _ h' =>
      obtain ⟨rfl, rfl⟩ := ih h'
      exact ⟨rfl, rfl⟩
    | letter => exact absurd rfl hslash
    | unit => exact absurd rfl hslash
  | letter hl h ih =>
    cases h' with
    | plain _ hslash => exact absurd rfl hslash
    | letter hl' h' =>
      obtain ⟨rfl, rfl⟩ := ih h'
      cases (letterEscape?_of_mem hl).symm.trans (letterEscape?_of_mem hl')
      exact ⟨rfl, rfl⟩
    | unit => exact absurd hl u_not_mem_letters
  | unit ha hb hc hd h ih =>
    cases h' with
    | plain _ hslash => exact absurd rfl hslash
    | letter hl => exact absurd hl u_not_mem_letters
    | unit ha' hb' hc' hd' h' =>
      obtain ⟨rfl, rfl⟩ := ih h'
      rw [ha.unique ha', hb.unique hb', hc.unique hc', hd.unique hd']
      exact ⟨rfl, rfl⟩

end Strings

section Forms

def Form.shape : Form → Form
  | .value _ => .value .null
  | .items first _ => .items first []
  | .members first _ => .members first []

theorem Form.eq_value {f : Form} (h : (Form.value v).shape = f.shape) : ∃ w, f = .value w := by
  cases f with
  | value w => exact ⟨w, rfl⟩
  | items | members => cases h

theorem Form.eq_items {f : Form} {first : Bool} {vs : List Document}
    (h : (Form.items first vs).shape = f.shape) : ∃ ws, f = .items first ws := by
  cases f with
  | items b ws =>
    cases h
    exact ⟨ws, rfl⟩
  | value | members => cases h

theorem Form.eq_members {f : Form} {first : Bool} {ms : List (Option String × Document)}
    (h : (Form.members first ms).shape = f.shape) : ∃ ns, f = .members first ns := by
  cases f with
  | members b ns =>
    cases h
    exact ⟨ns, rfl⟩
  | value | items => cases h

theorem Separated.unique {first : Bool} (h : Separated first s r) (h' : Separated first s r') :
    r = r' := by
  cases first with
  | true => exact (show s = r from h).symm.trans h'
  | false => exact (List.cons.inj (Space.unique h h' rfl rfl)).2

end Forms

namespace Derives

variable {f f' : Form}

/-- Where a list closes no item begins. -/
theorem not_item {first : Bool} (h : Space s (']' :: r)) (hs : Separated first s s₁)
    (hv : Derives (.value v) s₁ s₂) : False := by
  cases first with
  | true =>
    cases show s = s₁ from hs
    simpa using hv.of_head h rfl
  | false => exact absurd (List.cons.inj (h.unique hs rfl rfl)).1 (by decide)

/-- Where an object closes no member begins. -/
theorem not_member {first : Bool} (h : Space s ('\x7d' :: r)) (hs : Separated first s s₁)
    (hquote : Space s₁ ('"' :: s₂)) : False := by
  cases first with
  | true =>
    cases show s = s₁ from hs
    exact absurd (List.cons.inj (h.unique hquote rfl rfl)).1 (by decide)
  | false => exact absurd (List.cons.inj (h.unique hs rfl rfl)).1 (by decide)

/-- A value that begins as a number does is this number. -/
theorem of_number (h' : Derives (.value w) s r') (h : Space s (t ++ r)) (hv : Number t v)
    (hr : Ends r) (hr' : Ends r') : v = w ∧ r = r' := by
  obtain ⟨c, t, rfl, hc⟩ := hv.head
  have hsp : isSpace c = false := not_isSpace_of_inNumber (hv.inNumber c (by simp))
  -- a digit or a sign begins no other value
  rcases h'.of_head h hsp with ⟨rfl, -⟩ | ⟨rfl, -⟩ | ⟨rfl, -⟩ | ⟨-, t', hv', heq⟩ | ⟨rfl, -⟩ |
    ⟨rfl, -⟩ | ⟨rfl, -⟩
  case inr.inr.inr.inl =>
    obtain ⟨rfl, rfl⟩ := hv.cut hv' hr hr' heq
    exact ⟨hv.unique hv', rfl⟩
  all_goals exact absurd hc (by decide)

/-- A text has one reading, and it ends in one place. Only a number needs to know what follows. -/
theorem unique (h : Derives f s r) (h' : Derives f' s r') (hf : f.shape = f'.shape)
    (hr : Ends r) (hr' : Ends r') : f = f' ∧ r = r' := by
  -- on the first derivation; its first character says how the second one begins
  induction h generalizing f' r' with
  | nullWord h | trueWord h | falseWord h =>
    obtain ⟨w, rfl⟩ := Form.eq_value hf
    obtain ⟨rfl, rfl⟩ := by simpa using h'.of_head h rfl
    exact ⟨rfl, rfl⟩
  | number h hv =>
    obtain ⟨w, rfl⟩ := Form.eq_value hf
    obtain ⟨rfl, rfl⟩ := h'.of_number h hv hr hr'
    exact ⟨rfl, rfl⟩
  | string h hps =>
    obtain ⟨w, rfl⟩ := Form.eq_value hf
    obtain ⟨ps', rfl, hps'⟩ := by simpa using h'.of_head h rfl
    obtain ⟨rfl, rfl⟩ := hps.unique hps'
    exact ⟨rfl, rfl⟩
  | array h hvs ih =>
    obtain ⟨w, rfl⟩ := Form.eq_value hf
    obtain ⟨vs', rfl, hvs'⟩ := by simpa using h'.of_head h rfl
    obtain ⟨hitems, rfl⟩ := ih hvs' rfl hr hr'
    cases hitems
    exact ⟨rfl, rfl⟩
  | object h hms ih =>
    obtain ⟨w, rfl⟩ := Form.eq_value hf
    obtain ⟨ms', rfl, hms'⟩ := by simpa using h'.of_head h rfl
    obtain ⟨hmembers, rfl⟩ := ih hms' rfl hr hr'
    cases hmembers
    exact ⟨rfl, rfl⟩
  | closeArray h =>
    obtain ⟨ws, rfl⟩ := Form.eq_items hf
    cases h' with
    | closeArray h' =>
      cases h.unique h' rfl rfl
      exact ⟨rfl, rfl⟩
    | item h' hv' => exact (not_item h h' hv').elim
  | item h hv hvs ihv ihvs =>
    obtain ⟨ws, rfl⟩ := Form.eq_items hf
    cases h' with
    | closeArray h' => exact (not_item h' h hv).elim
    | item h' hv' hvs' =>
      cases h.unique h'
      -- a comma or a bracket follows the item in both readings
      obtain ⟨hvalue, rfl⟩ := ihv hv' rfl hvs.items_ends hvs'.items_ends
      obtain ⟨hitems, rfl⟩ := ihvs hvs' rfl hr hr'
      cases hvalue
      cases hitems
      exact ⟨rfl, rfl⟩
  | closeObject h =>
    obtain ⟨ns, rfl⟩ := Form.eq_members hf
    cases h' with
    | closeObject h' =>
      cases h.unique h' rfl rfl
      exact ⟨rfl, rfl⟩
    | member h' hquote => exact (not_member h h' hquote).elim
  | member h hquote hps hcolon hv hms ihv ihms =>
    obtain ⟨ns, rfl⟩ := Form.eq_members hf
    cases h' with
    | closeObject h' => exact (not_member h' h hquote).elim
    | member h' hquote' hps' hcolon' hv' hms' =>
      cases h.unique h'
      cases hquote.unique hquote' rfl rfl
      obtain ⟨rfl, rfl⟩ := hps.unique hps'
      cases hcolon.unique hcolon' rfl rfl
      obtain ⟨hvalue, rfl⟩ := ihv hv' rfl hms.members_ends hms'.members_ends
      obtain ⟨hmembers, rfl⟩ := ihms hms' rfl hr hr'
      cases hvalue
      cases hmembers
      exact ⟨rfl, rfl⟩

end Derives

theorem Denotes.unique (h : Denotes s v) (h' : Denotes s w) : v = w := by
  obtain ⟨r, h, hr⟩ := h
  obtain ⟨r', h', hr'⟩ := h'
  have heq := (h.unique h' rfl (hr.ends_of_ends ends_nil) (hr'.ends_of_ends ends_nil)).1
  cases heq
  rfl

end PlaybookTidy.Json
