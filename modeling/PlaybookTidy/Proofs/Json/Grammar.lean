import PlaybookTidy.Json.Scan

/-!
The grammar of JSON: a relation between a text and what is left of it behind a value. What a text
says is unique.
-/

namespace PlaybookTidy.Json

/-- A value as a text writes it. A number that is no integer is kept as it is written, and a string
with half a surrogate pair has no text. -/
inductive Document
  | null
  | bool (b : Bool)
  | integer (n : Int)
  | real (written : List Char)
  | string (s : Option String)
  | array (items : List Document)
  | object (members : List (Option String × Document))

def Space (s r : List Char) : Prop := ∃ w, (∀ c ∈ w, c ∈ [' ', '\n', '\t', '\r']) ∧ s = w ++ r

/-! Numbers -/

def AreDigits (s : List Char) : Prop := s ≠ [] ∧ ∀ c ∈ s, c.isDigit

def IsWhole (s : List Char) : Prop := AreDigits s ∧ (s.head? = some '0' → s = ['0'])

def IsFraction (s : List Char) : Prop := ∃ ds, AreDigits ds ∧ s = '.' :: ds

def IsExponent (s : List Char) : Prop :=
  ∃ e sign ds, e ∈ ['e', 'E'] ∧ sign ∈ [[], ['+'], ['-']] ∧ AreDigits ds ∧ s = e :: (sign ++ ds)

inductive Number : List Char → Document → Prop
  | natural {s} (h : IsWhole s) : Number s (.integer (Nat.ofDigitChars 10 s 0))
  | negative {s} (h : IsWhole s) : Number ('-' :: s) (.integer (-(Nat.ofDigitChars 10 s 0 : Nat)))
  | real {sign s f e} (hsign : sign ∈ [[], ['-']]) (h : IsWhole s)
      (hf : f = [] ∨ IsFraction f) (he : e = [] ∨ IsExponent e) (hfe : f ≠ [] ∨ e ≠ []) :
      Number (sign ++ s ++ f ++ e) (.real (sign ++ s ++ f ++ e))

def inNumber (c : Char) : Bool := c.isDigit || c ∈ ['-', '+', '.', 'e', 'E']

def Ends (s : List Char) : Prop := ∀ c, s.head? = some c → inNumber c = false

/-! Strings -/

/-- A part of a string: a character, or a sixteen-bit unit that is one or half of one. -/
inductive Piece
  | char (c : Char)
  | unit (n : Nat)

def letters : List (Char × Char) :=
  [('"', '"'), ('\\', '\\'), ('/', '/'), ('b', '\x08'), ('f', '\x0c'), ('n', '\n'), ('r', '\r'),
    ('t', '\t')]

def IsHexDigit (c : Char) (n : Nat) : Prop :=
  "0123456789abcdef".toList[n]? = some c ∨ "0123456789ABCDEF".toList[n]? = some c

/-- What is left of a text behind the pieces of a string and its closing quote. -/
inductive Pieces : List Piece → List Char → List Char → Prop
  | close {r} : Pieces [] ('"' :: r) r
  | plain {c ps s r} (hquote : c ≠ '"') (hslash : c ≠ '\\') (hc : 0x20 ≤ c.toNat)
      (h : Pieces ps s r) : Pieces (.char c :: ps) (c :: s) r
  | letter {l c ps s r} (hl : (l, c) ∈ letters) (h : Pieces ps s r) :
      Pieces (.char c :: ps) ('\\' :: l :: s) r
  | unit {a b c d i j k l ps s r} (ha : IsHexDigit a i) (hb : IsHexDigit b j)
      (hc : IsHexDigit c k) (hd : IsHexDigit d l) (h : Pieces ps s r) :
      Pieces (.unit (((i * 16 + j) * 16 + k) * 16 + l) :: ps)
        ('\\' :: 'u' :: a :: b :: c :: d :: s) r

def IsHigh (n : Nat) : Prop := 0xD800 ≤ n ∧ n ≤ 0xDBFF

def IsLow (n : Nat) : Prop := 0xDC00 ≤ n ∧ n ≤ 0xDFFF

instance (n : Nat) : Decidable (IsHigh n) := inferInstanceAs (Decidable (_ ∧ _))

instance (n : Nat) : Decidable (IsLow n) := inferInstanceAs (Decidable (_ ∧ _))

/-- The characters that pieces make, if each half of a surrogate pair has the other one. -/
def joined? : List Piece → Option (List Char)
  | [] => some []
  | .char c :: ps => (joined? ps).map (c :: ·)
  | .unit n :: .unit m :: ps =>
    if IsHigh n ∧ IsLow m then
      (joined? ps).map (Char.ofNat (0x10000 + (n - 0xD800) * 0x400 + (m - 0xDC00)) :: ·)
    else if IsHigh n ∨ IsLow n then none
    else (joined? (.unit m :: ps)).map (Char.ofNat n :: ·)
  | .unit n :: ps => if IsHigh n ∨ IsLow n then none else (joined? ps).map (Char.ofNat n :: ·)

def stringOf (ps : List Piece) : Option String := (joined? ps).map String.ofList

/-! Values -/

/-- What may be read: a value, or the items or members of a list or an object from behind its
opening bracket or from behind one of them, with the closing bracket. -/
inductive Form
  | value (v : Document)
  | items (first : Bool) (vs : List Document)
  | members (first : Bool) (ms : List (Option String × Document))

/-- The place of an item or a member. Those after the first come after a comma. -/
def Separated (first : Bool) (s r : List Char) : Prop := if first then s = r else Space s (',' :: r)

/-- The text begins with a form, before which there may be space, and the rest is left. -/
inductive Derives : Form → List Char → List Char → Prop
  | nullWord {s r} (h : Space s ('n' :: 'u' :: 'l' :: 'l' :: r)) : Derives (.value .null) s r
  | trueWord {s r} (h : Space s ('t' :: 'r' :: 'u' :: 'e' :: r)) :
      Derives (.value (.bool true)) s r
  | falseWord {s r} (h : Space s ('f' :: 'a' :: 'l' :: 's' :: 'e' :: r)) :
      Derives (.value (.bool false)) s r
  | number {v s t r} (h : Space s (t ++ r)) (hv : Number t v) : Derives (.value v) s r
  | string {ps s s₁ r} (h : Space s ('"' :: s₁)) (hps : Pieces ps s₁ r) :
      Derives (.value (.string (stringOf ps))) s r
  | array {vs s s₁ r} (h : Space s ('[' :: s₁)) (hvs : Derives (.items true vs) s₁ r) :
      Derives (.value (.array vs)) s r
  | object {ms s s₁ r} (h : Space s ('\x7b' :: s₁)) (hms : Derives (.members true ms) s₁ r) :
      Derives (.value (.object ms)) s r
  | closeArray {first s r} (h : Space s (']' :: r)) : Derives (.items first []) s r
  | item {first v vs s s₁ s₂ r} (h : Separated first s s₁) (hv : Derives (.value v) s₁ s₂)
      (hvs : Derives (.items false vs) s₂ r) : Derives (.items first (v :: vs)) s r
  | closeObject {first s r} (h : Space s ('\x7d' :: r)) : Derives (.members first []) s r
  | member {first ps v ms s s₁ s₂ s₃ s₄ s₅ r} (h : Separated first s s₁)
      (hquote : Space s₁ ('"' :: s₂)) (hps : Pieces ps s₂ s₃) (hcolon : Space s₃ (':' :: s₄))
      (hv : Derives (.value v) s₄ s₅) (hms : Derives (.members false ms) s₅ r) :
      Derives (.members first ((stringOf ps, v) :: ms)) s r

/-- The text is a value and nothing else, but for space around it. -/
def Denotes (text : List Char) (v : Document) : Prop :=
  ∃ r, Derives (.value v) text r ∧ Space r []

variable {s r s₁ t : List Char} {c c' : Char} {v w : Document}

section Space

theorem isSpace_iff : isSpace c ↔ c ∈ [' ', '\n', '\t', '\r'] := by
  simp [isSpace, or_assoc]

theorem not_inNumber_of_isSpace (h : isSpace c) : inNumber c = false := by
  simp only [isSpace, Bool.or_eq_true, decide_eq_true_eq] at h
  rcases h with ((rfl | rfl) | rfl) | rfl <;> rfl

theorem not_isSpace_of_inNumber (h : inNumber c) : isSpace c = false := by
  cases hc : isSpace c with
  | false => rfl
  | true => exact absurd h (by simp [not_inNumber_of_isSpace hc])

namespace Space

theorem refl (s : List Char) : Space s s := ⟨[], by simp, rfl⟩

theorem of_dropSpace (s : List Char) : Space s (Json.dropSpace s) :=
  ⟨s.takeWhile isSpace, fun c hc => isSpace_iff.1 (List.all_eq_true.1 List.all_takeWhile c hc),
    List.takeWhile_append_dropWhile.symm⟩

theorem dropSpace (h : Space s r) : Json.dropSpace s = Json.dropSpace r := by
  obtain ⟨w, hw, rfl⟩ := h
  exact List.dropWhile_append_of_pos fun c hc => isSpace_iff.2 (hw c hc)

theorem dropSpace_cons (h : Space s (c :: r)) (hc : isSpace c = false) :
    Json.dropSpace s = c :: r := by
  rw [h.dropSpace, Json.dropSpace, List.dropWhile_cons, if_neg (by simp [hc])]

/-- What stands behind white space is determined by the text. -/
theorem unique (h : Space s (c :: r)) (h' : Space s (c' :: r')) (hc : isSpace c = false)
    (hc' : isSpace c' = false) : c :: r = c' :: r' :=
  (h.dropSpace_cons hc).symm.trans (h'.dropSpace_cons hc')

theorem length_le (h : Space s r) : r.length ≤ s.length := by
  obtain ⟨w, hw, rfl⟩ := h
  simp

theorem ends_of_ends (h : Space s r) (hr : Ends r) : Ends s := by
  obtain ⟨w, hw, rfl⟩ := h
  cases w with
  | nil => exact hr
  | cons c w =>
    intro c' hc'
    cases hc'
    exact not_inNumber_of_isSpace (isSpace_iff.2 (hw c (by simp)))

theorem ends (h : Space s (c :: r)) (hc : inNumber c = false) : Ends s := by
  apply h.ends_of_ends
  intro c' hc'
  cases hc'
  exact hc

end Space

theorem ends_nil : Ends [] := nofun

end Space

section Numbers

theorem inNumber_of_isDigit (h : c.isDigit) : inNumber c := by
  simp [inNumber, h]

theorem AreDigits.inNumber (h : AreDigits s) : ∀ c ∈ s, inNumber c :=
  fun c hc => inNumber_of_isDigit (h.2 c hc)

theorem IsFraction.inNumber (h : IsFraction s) : ∀ c ∈ s, inNumber c := by
  obtain ⟨ds, hds, rfl⟩ := h
  exact List.forall_mem_cons.2 ⟨rfl, hds.inNumber⟩

theorem IsExponent.inNumber (h : IsExponent s) : ∀ c ∈ s, inNumber c := by
  obtain ⟨e, sign, ds, he, hsign, hds, rfl⟩ := h
  have hs : ∀ c ∈ sign, Json.inNumber c := by
    simp only [List.mem_cons, List.not_mem_nil, or_false] at hsign
    rcases hsign with rfl | rfl | rfl <;> simp [Json.inNumber]
  refine List.forall_mem_cons.2 ⟨?_, List.forall_mem_append.2 ⟨hs, hds.inNumber⟩⟩
  simp only [List.mem_cons, List.not_mem_nil, or_false] at he
  rcases he with rfl | rfl <;> rfl

/-- A number holds nothing but digits, signs, points and the letters of exponents. -/
theorem Number.inNumber (h : Number s v) : ∀ c ∈ s, inNumber c := by
  cases h with
  | natural h => exact h.1.inNumber
  | negative h => exact List.forall_mem_cons.2 ⟨rfl, h.1.inNumber⟩
  | real hsign h hf he hfe =>
    simp only [List.forall_mem_append]
    refine ⟨⟨⟨?_, h.1.inNumber⟩, ?_⟩, ?_⟩
    · simp only [List.mem_cons, List.not_mem_nil, or_false] at hsign
      rcases hsign with rfl | rfl <;> simp [Json.inNumber]
    · rcases hf with rfl | hf
      · simp
      · exact hf.inNumber
    · rcases he with rfl | he
      · simp
      · exact he.inNumber

theorem IsWhole.head (h : IsWhole s) : ∃ c r, s = c :: r ∧ c.isDigit := by
  obtain ⟨c, r, rfl⟩ := List.exists_cons_of_ne_nil h.1.1
  exact ⟨c, r, rfl, h.1.2 c (by simp)⟩

theorem Number.head (h : Number s v) :
    ∃ c r, s = c :: r ∧ (c.isDigit ∨ c = '-') := by
  cases h with
  | natural h =>
    obtain ⟨c, r, rfl, hc⟩ := h.head
    exact ⟨c, r, rfl, Or.inl hc⟩
  | negative h => exact ⟨'-', _, rfl, Or.inr rfl⟩
  | real hsign h =>
    obtain ⟨c, r, rfl, hc⟩ := h.head
    simp only [List.mem_cons, List.not_mem_nil, or_false] at hsign
    rcases hsign with rfl | rfl
    · exact ⟨c, _, rfl, Or.inl hc⟩
    · exact ⟨'-', _, rfl, Or.inr rfl⟩

end Numbers

section Strings

theorem letterEscape?_of_mem {l : Char} (h : (l, c) ∈ letters) : letterEscape? l = some c := by
  simp only [letters, List.mem_cons, Prod.mk.injEq, List.not_mem_nil, or_false] at h
  rcases h with ⟨rfl, rfl⟩ | ⟨rfl, rfl⟩ | ⟨rfl, rfl⟩ | ⟨rfl, rfl⟩ | ⟨rfl, rfl⟩ | ⟨rfl, rfl⟩ |
    ⟨rfl, rfl⟩ | ⟨rfl, rfl⟩ <;> rfl

theorem u_not_mem_letters : ('u', c) ∉ letters := fun h => nomatch letterEscape?_of_mem h

theorem hexValue?_of_isHexDigit {n : Nat} (h : IsHexDigit c n) : hexValue? c = some n := by
  have hall : ∀ s ∈ ["0123456789abcdef".toList, "0123456789ABCDEF".toList],
      ∀ n < s.length, hexValue? (s.getD n ' ') = some n := by decide
  have hget {s : List Char} (hs : s ∈ ["0123456789abcdef".toList, "0123456789ABCDEF".toList])
      (h : s[n]? = some c) : hexValue? c = some n := by
    obtain ⟨hn, rfl⟩ := List.getElem?_eq_some_iff.1 h
    simpa [hn] using hall s hs n hn
  rcases h with h | h
  · exact hget (by simp) h
  · exact hget (by simp) h

theorem Pieces.length_lt {ps : List Piece} (h : Pieces ps s r) : r.length < s.length := by
  induction h <;> simp only [List.length_cons] <;> omega

end Strings

section Derives

theorem Separated.length_le {first : Bool} (h : Separated first s r) : r.length ≤ s.length := by
  cases first with
  | true => exact Nat.le_of_eq (congrArg List.length (show s = r from h).symm)
  | false => exact Nat.le_of_succ_le (Space.length_le h)

namespace Derives

variable {f : Form} {vs : List Document} {ms : List (Option String × Document)}

/-- Every form takes at least a character. -/
theorem length_lt (h : Derives f s r) : r.length < s.length := by
  -- White space may be empty: it is the words, brackets and quotes that take characters.
  induction h with
  | nullWord h | trueWord h | falseWord h | closeArray h | closeObject h =>
    have := h.length_le
    simp only [List.length_cons] at this
    omega
  | number h hv =>
    obtain ⟨c, t, rfl, -⟩ := hv.head
    have := h.length_le
    simp only [List.length_append, List.length_cons] at this
    omega
  | string h hps =>
    have := h.length_le
    have := hps.length_lt
    simp only [List.length_cons] at *
    omega
  | array h _ ih | object h _ ih =>
    have := h.length_le
    simp only [List.length_cons] at this
    omega
  | item h _ _ ihv ihvs =>
    have := h.length_le
    omega
  | member h hquote hps hcolon _ _ ihv ihms =>
    have := h.length_le
    have := hquote.length_le
    have := hps.length_lt
    have := hcolon.length_le
    simp only [List.length_cons] at *
    omega

/-- Each item takes a character of the text. -/
theorem items_length_le {first : Bool} (h : Derives (.items first vs) s r) :
    vs.length ≤ s.length := by
  generalize hf : Form.items first vs = f at h
  induction h generalizing first vs with
  | closeArray =>
    cases hf
    exact Nat.zero_le _
  | item h hv _ _ ih =>
    cases hf
    have := h.length_le
    have := hv.length_lt
    have := ih rfl
    rw [List.length_cons]
    omega
  | _ => cases hf

/-- Each member takes at least a character, so there are no more members than characters. -/
theorem members_length_le {first : Bool} (h : Derives (.members first ms) s r) :
    ms.length ≤ s.length := by
  generalize hf : Form.members first ms = f at h
  induction h generalizing first ms with
  | closeObject =>
    cases hf
    exact Nat.zero_le _
  | member h hquote hps hcolon hv _ _ ih =>
    cases hf
    have := h.length_le
    have := hquote.length_le
    have := hps.length_lt
    have := hcolon.length_le
    have := hv.length_lt
    have := ih rfl
    simp only [List.length_cons] at *
    omega
  | _ => cases hf

theorem items_ends (h : Derives (.items false vs) s r) : Ends s := by
  cases h with
  | closeArray h => exact h.ends rfl
  | item h => exact Space.ends h rfl

theorem members_ends (h : Derives (.members false ms) s r) : Ends s := by
  cases h with
  | closeObject h => exact h.ends rfl
  | member h => exact Space.ends h rfl

/-- A value begins with a character that closes no list. -/
theorem head (h : Derives (.value v) s r) :
    ∃ c t, dropSpace s = c :: t ∧ c ≠ ']' := by
  cases h with
  | nullWord h | trueWord h | falseWord h | string h | array h | object h =>
    exact ⟨_, _, h.dropSpace_cons rfl, by decide⟩
  | number h hv =>
    obtain ⟨c, t, rfl, hc⟩ := hv.head
    refine ⟨c, _, h.dropSpace_cons (not_isSpace_of_inNumber (hv.inNumber c (by simp))), ?_⟩
    rintro rfl
    exact absurd hc (by decide)

theorem value_dropSpace (h : Derives (.value v) s r) : Derives (.value v) (dropSpace s) r := by
  have hspace {c t} (h : Space s (c :: t)) (hc : isSpace c = false) :
      Space (dropSpace s) (c :: t) := h.dropSpace_cons hc ▸ Space.refl _
  cases h with
  | nullWord h => exact .nullWord (hspace h rfl)
  | trueWord h => exact .trueWord (hspace h rfl)
  | falseWord h => exact .falseWord (hspace h rfl)
  | number h hv =>
    obtain ⟨c, t, rfl, hc⟩ := hv.head
    exact .number (hspace h (not_isSpace_of_inNumber (hv.inNumber c (by simp)))) hv
  | string h hps => exact .string (hspace h rfl) hps
  | array h hvs => exact .array (hspace h rfl) hvs
  | object h hms => exact .object (hspace h rfl) hms

theorem of_null (h : Derives (.value .null) s r) :
    Space s ('n' :: 'u' :: 'l' :: 'l' :: r) := by
  cases h with
  | nullWord h => exact h
  | number _ hv => cases hv

theorem of_string {k : Option String} (h : Derives (.value (.string k)) s r) :
    ∃ ps s₁, Space s ('"' :: s₁) ∧ Pieces ps s₁ r ∧ stringOf ps = k := by
  generalize hf : Form.value (.string k) = f at h
  cases h with
  | string h hps =>
    cases hf
    exact ⟨_, _, h, hps, rfl⟩
  | number _ hv => cases hv <;> cases hf
  | _ => cases hf

theorem of_array (h : Derives (.value (.array vs)) s r) :
    ∃ s₁, Space s ('[' :: s₁) ∧ Derives (.items true vs) s₁ r := by
  cases h with
  | array h hvs => exact ⟨_, h, hvs⟩
  | number _ hv => cases hv

theorem of_object (h : Derives (.value (.object ms)) s r) :
    ∃ s₁, Space s ('\x7b' :: s₁) ∧ Derives (.members true ms) s₁ r := by
  cases h with
  | object h hms => exact ⟨_, h, hms⟩
  | number _ hv => cases hv

/-- The first character says which value it is. -/
theorem of_head (h : Derives (.value v) s r) (hs : Space s (c :: s₁)) (hc : isSpace c = false) :
    (c = 'n' ∧ v = .null ∧ s₁ = 'u' :: 'l' :: 'l' :: r) ∨
    (c = 't' ∧ v = .bool true ∧ s₁ = 'r' :: 'u' :: 'e' :: r) ∨
    (c = 'f' ∧ v = .bool false ∧ s₁ = 'a' :: 'l' :: 's' :: 'e' :: r) ∨
    ((c.isDigit ∨ c = '-') ∧ ∃ t, Number t v ∧ c :: s₁ = t ++ r) ∨
    (c = '"' ∧ ∃ ps, v = .string (stringOf ps) ∧ Pieces ps s₁ r) ∨
    (c = '[' ∧ ∃ vs, v = .array vs ∧ Derives (.items true vs) s₁ r) ∨
    (c = '\x7b' ∧ ∃ ms, v = .object ms ∧ Derives (.members true ms) s₁ r) := by
  -- The first character that is no space is one and the same, and it says what value this is.
  cases h with
  | nullWord h =>
    cases hs.unique h hc rfl
    simp
  | trueWord h =>
    cases hs.unique h hc rfl
    simp
  | falseWord h =>
    cases hs.unique h hc rfl
    simp
  | number h hv =>
    obtain ⟨c', t, rfl, hc'⟩ := hv.head
    have hn : inNumber c' := hv.inNumber c' (by simp)
    cases hs.unique h hc (not_isSpace_of_inNumber hn)
    exact Or.inr (Or.inr (Or.inr (Or.inl ⟨hc', _, hv, rfl⟩)))
  | string h hps =>
    cases hs.unique h hc rfl
    simpa using ⟨_, rfl, hps⟩
  | array h hvs =>
    cases hs.unique h hc rfl
    simpa using hvs
  | object h hms =>
    cases hs.unique h hc rfl
    simpa using hms

end Derives

end Derives

end PlaybookTidy.Json
