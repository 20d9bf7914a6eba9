import PlaybookTidy.Json.Printer
import PlaybookTidy.Proofs.Json.Unique

/-!
What is printed reads as the value that was printed, and holds no control character but line ends.
-/

namespace PlaybookTidy.Json

mutual

def document : Json → Document
  | null => .null
  | bool b => .bool b
  | number n => .integer n
  | string s => .string (some s)
  | array items => .array (documents items)
  | object members => .object (memberDocuments members)

def documents : List Json → List Document
  | [] => []
  | v :: vs => document v :: documents vs

def memberDocuments : List (String × Json) → List (Option String × Document)
  | [] => []
  | (k, v) :: ms => (some k, document v) :: memberDocuments ms

end

variable {s r : List Char} {c : Char}

section Strings

theorem joined?_unit {n : Nat} (hhigh : ¬ IsHigh n) (hlow : ¬ IsLow n) (ps : List Piece) :
    joined? (.unit n :: ps) = (joined? ps).map (Char.ofNat n :: ·) := by
  cases ps with
  | nil => simp [joined?, hhigh, hlow]
  | cons p ps => cases p <;> simp [joined?, hhigh, hlow]

theorem isHexDigit_hexDigit {n : Nat} (h : n < 16) : IsHexDigit (hexDigit n) n := by
  have hall : ∀ n < 16, "0123456789abcdef".toList[n]? = some (hexDigit n) := by decide
  exact Or.inl (hall n h)

/-- A printed character is one piece. -/
theorem exists_pieces_escapeChar (c : Char) {ps : List Piece} (h : Pieces ps s r) :
    ∃ p, Pieces (p :: ps) (escapeChar c ++ s) r ∧
      joined? (p :: ps) = (joined? ps).map (c :: ·) := by
  unfold escapeChar
  split
  -- the last case holds what has no letter of its own: other controls, and what stands for itself
  case h_8 hquote hslash _ _ _ _ _ =>
    split
    case isTrue hlow =>
      refine ⟨.unit c.toNat, ?_, ?_⟩
      · have hzero : IsHexDigit '0' 0 := Or.inl rfl
        have hunit := Pieces.unit hzero hzero (isHexDigit_hexDigit (n := c.toNat / 16) (by omega))
          (isHexDigit_hexDigit (Nat.mod_lt c.toNat (by omega))) h
        have hn : ((0 * 16 + 0) * 16 + c.toNat / 16) * 16 + c.toNat % 16 = c.toNat := by omega
        rwa [hn] at hunit
      · rw [joined?_unit (by simp only [IsHigh]; omega) (by simp only [IsLow]; omega),
          Char.ofNat_toNat]
    case isFalse hlow =>
      exact ⟨.char c, .plain (fun h => hquote h) (fun h => hslash h) (by omega) h, rfl⟩
  all_goals exact ⟨.char _, .letter (by decide) h, rfl⟩

/-- An escaped text has pieces that make the text. -/
theorem exists_pieces_escape (t r : List Char) :
    ∃ ps, Pieces ps (t.flatMap escapeChar ++ '"' :: r) r ∧ joined? ps = some t := by
  induction t with
  | nil => exact ⟨[], .close, rfl⟩
  | cons c t ih =>
    obtain ⟨ps, hps, ht⟩ := ih
    obtain ⟨p, hp, hc⟩ := exists_pieces_escapeChar c hps
    refine ⟨p :: ps, ?_, by rw [hc, ht, Option.map_some]⟩
    rwa [List.flatMap_cons, List.append_assoc]

theorem exists_pieces_quoted (k : String) (r : List Char) :
    ∃ ps t, quoted k ++ r = '"' :: t ∧ Pieces ps t r ∧ stringOf ps = some k := by
  obtain ⟨ps, hps, hk⟩ := exists_pieces_escape k.toList r
  refine ⟨ps, _, ?_, hps, ?_⟩
  · simp [quoted]
  · rw [stringOf, hk, Option.map_some, String.ofList_toList]

end Strings

/-- Only zero has a zero for its first digit. -/
theorem toDigits_zero_head {n : Nat} (h : (Nat.toDigits 10 n).head? = some '0') :
    Nat.toDigits 10 n = ['0'] := by
  induction n using Nat.strongRecOn with
  | ind n ih =>
    rcases Nat.lt_or_ge n 10 with hn | hn
    · rw [Nat.toDigits_of_lt_base hn] at h ⊢
      simpa using h
    · -- the digits before the last one would be a zero
      obtain ⟨d, ds, hds⟩ := List.exists_cons_of_ne_nil (Nat.toDigits_ne_nil (n := n / 10) (b := 10))
      rw [Nat.toDigits_of_base_le (by decide) hn, hds, List.cons_append, List.head?_cons] at h
      have hzero := ih (n / 10) (by omega) (by rw [hds, List.head?_cons, h])
      have hval := Nat.ofDigitChars_ten_toDigits (n := n / 10)
      rw [hzero] at hval
      have : n / 10 = 0 := hval.symm
      omega

theorem isWhole_repr (n : Nat) : IsWhole n.repr.toList := by
  rw [Nat.toList_repr]
  exact ⟨⟨Nat.toDigits_ne_nil, fun c hc => Nat.isDigit_of_mem_toDigits (by decide) (by decide) hc⟩,
    toDigits_zero_head⟩

theorem ofDigitChars_repr (n : Nat) : Nat.ofDigitChars 10 n.repr.toList 0 = n := by
  rw [Nat.toList_repr, Nat.ofDigitChars_ten_toDigits]

/-- A printed integer is a number with this value. -/
theorem number_toString (n : Int) : Number (toString n).toList (.integer n) := by
  rw [Int.toString_eq_repr, Int.repr_eq_if]
  split
  case isTrue hn =>
    have h := Number.natural (isWhole_repr n.toNat)
    rwa [ofDigitChars_repr, Int.toNat_of_nonneg hn] at h
  case isFalse hn =>
    have h := Number.negative (isWhole_repr (-n).toNat)
    rw [ofDigitChars_repr, Int.toNat_of_nonneg (by omega), Int.neg_neg] at h
    simpa using h

section Values

theorem space_newline (level : Nat) (s : List Char) : Space (newline level ++ s) s := by
  refine ⟨newline level, ?_, rfl⟩
  intro c hc
  rcases List.mem_cons.1 hc with rfl | hc
  · simp
  · simp [(List.mem_replicate.1 hc).2]

@[simp] theorem documents_eq_map (vs : List Json) : documents vs = vs.map document := by
  induction vs with
  | nil => rfl
  | cons v vs ih => rw [documents, ih, List.map_cons]

@[simp] theorem memberDocuments_eq_map (ms : List (String × Json)) :
    memberDocuments ms = ms.map fun m => (some m.1, m.2.document) := by
  induction ms with
  | nil => rfl
  | cons m ms ih => rw [memberDocuments, ih, List.map_cons]

def ReadsBack (v : Json) : Prop :=
  ∀ level s r, Space s (printAt level v ++ r) → Derives (.value v.document) s r

/-- Printed items are the items of a list if each of them is read back. -/
theorem derives_printItems {vs : List Json} (h : ∀ v ∈ vs, ReadsBack v) {level : Nat}
    (hs : Space s (']' :: r)) :
    Derives (.items false (documents vs)) (printItems level vs ++ s) r := by
  induction vs with
  | nil => exact .closeArray hs
  | cons v vs ih =>
    rw [List.forall_mem_cons] at h
    have htext : printItems level (v :: vs) ++ s =
        ',' :: (newline level ++ (printAt level v ++ (printItems level vs ++ s))) := by
      simp [printItems]
    rw [htext]
    exact .item (Space.refl _) (h.1 level _ _ (space_newline level _)) (ih h.2)

/-- A member behind its separator. -/
theorem derives_printMember {first : Bool} {k : String} {v : Json} {ms : List (String × Json)}
    (hv : ReadsBack v) {level : Nat} {s₁ s₂ : List Char} (h : Separated first s s₁)
    (hs : Space s₁ (quoted k ++ ([':', ' '] ++ (printAt level v ++ s₂))))
    (hms : Derives (.members false (memberDocuments ms)) s₂ r) :
    Derives (.members first (memberDocuments ((k, v) :: ms))) s r := by
  obtain ⟨ps, t, ht, hps, hk⟩ := exists_pieces_quoted k ([':', ' '] ++ (printAt level v ++ s₂))
  rw [ht] at hs
  rw [memberDocuments, ← hk]
  exact .member h hs hps (Space.refl _) (hv level _ _ ⟨[' '], by simp, rfl⟩) hms

/-- Printed members are the members of an object if each value is read back. -/
theorem derives_printMembers {ms : List (String × Json)} (h : ∀ m ∈ ms, ReadsBack m.2)
    {level : Nat} (hs : Space s ('\x7d' :: r)) :
    Derives (.members false (memberDocuments ms)) (printMembers level ms ++ s) r := by
  induction ms with
  | nil => exact .closeObject hs
  | cons m ms ih =>
    rw [List.forall_mem_cons] at h
    have htext : printMembers level (m :: ms) ++ s = ',' :: (newline level ++
        (quoted m.1 ++ ([':', ' '] ++ (printAt level m.2 ++ (printMembers level ms ++ s))))) := by
      simp [printMembers]
    rw [htext]
    exact derives_printMember h.1 (Space.refl _) (space_newline level _) (ih h.2)

/-- By induction on the value, what is printed is read as the value. -/
theorem readsBack (v : Json) : ReadsBack v := by
  -- the level is general, as a value inside another one stands one level deeper
  induction v using induction with
  | null => exact fun _ _ _ hs => .nullWord hs
  | bool b =>
    cases b with
    | true => exact fun _ _ _ hs => .trueWord hs
    | false => exact fun _ _ _ hs => .falseWord hs
  | number n => exact fun _ _ _ hs => .number hs (number_toString n)
  | string k =>
    intro level s r hs
    obtain ⟨ps, t, ht, hps, hk⟩ := exists_pieces_quoted k r
    rw [printAt, ht] at hs
    rw [document, ← hk]
    exact .string hs hps
  | array items ih =>
    intro level s r hs
    cases items with
    | nil => exact .array hs (.closeArray (Space.refl _))
    | cons v vs =>
      rw [List.forall_mem_cons] at ih
      have htext : printAt level (array (v :: vs)) ++ r = '[' :: (newline (level + 1) ++
          (printAt (level + 1) v ++ (printItems (level + 1) vs ++ (newline level ++ ']' :: r)))) := by
        simp [printAt]
      rw [htext] at hs
      exact .array hs (.item rfl (ih.1 (level + 1) _ _ (space_newline (level + 1) _))
        (derives_printItems ih.2 (space_newline level _)))
  | object members ih =>
    intro level s r hs
    cases members with
    | nil => exact .object hs (.closeObject (Space.refl _))
    | cons m ms =>
      rw [List.forall_mem_cons] at ih
      have htext : printAt level (object (m :: ms)) ++ r = '\x7b' :: (newline (level + 1) ++
          (quoted m.1 ++ ([':', ' '] ++ (printAt (level + 1) m.2 ++
            (printMembers (level + 1) ms ++ (newline level ++ '\x7d' :: r)))))) := by
        simp [printAt]
      rw [htext] at hs
      exact .object hs (derives_printMember ih.1 rfl (space_newline (level + 1) _)
        (derives_printMembers ih.2 (space_newline level _)))

theorem denotes_print (v : Json) : Denotes v.print.toList v.document := by
  refine ⟨[], readsBack v 0 _ _ ?_, Space.refl _⟩
  rw [print, String.toList_ofList, List.append_nil]
  exact Space.refl _

theorem documents_injective {vs ws : List Json}
    (h : ∀ v ∈ vs, ∀ w, v.document = w.document → v = w) (heq : documents vs = documents ws) :
    vs = ws := by
  induction vs generalizing ws with
  | nil =>
    cases ws with
    | nil => rfl
    | cons => cases heq
  | cons v vs ih =>
    cases ws with
    | nil => cases heq
    | cons w ws =>
      rw [List.forall_mem_cons] at h
      rw [documents, documents, List.cons.injEq] at heq
      rw [h.1 w heq.1, ih h.2 heq.2]

theorem memberDocuments_injective {ms ns : List (String × Json)}
    (h : ∀ m ∈ ms, ∀ w, m.2.document = w.document → m.2 = w)
    (heq : memberDocuments ms = memberDocuments ns) : ms = ns := by
  induction ms generalizing ns with
  | nil =>
    cases ns with
    | nil => rfl
    | cons => cases heq
  | cons m ms ih =>
    cases ns with
    | nil => cases heq
    | cons n ns =>
      rw [List.forall_mem_cons] at h
      simp only [memberDocuments, List.cons.injEq, Prod.mk.injEq, Option.some.injEq] at heq
      rw [ih h.2 heq.2, Prod.ext heq.1.1 (h.1 _ heq.1.2)]

/-- Different values are different as their texts write them. -/
theorem document_injective {v w : Json} (h : v.document = w.document) : v = w := by
  induction v using induction generalizing w with
  | null | bool | number | string => cases w <;> simp_all [document]
  | array items ih =>
    cases w with
    | array => rw [documents_injective ih (Document.array.inj h)]
    | null | bool | number | string | object => cases h
  | object members ih =>
    cases w with
    | object => rw [memberDocuments_injective ih (Document.object.inj h)]
    | null | bool | number | string | array => cases h

end Values

section Controls

def IsPlain (s : List Char) : Prop := ∀ c ∈ s, 0x20 ≤ c.toNat ∨ c = '\n'

theorem IsPlain.append {s t : List Char} (hs : IsPlain s) (ht : IsPlain t) : IsPlain (s ++ t) :=
  List.forall_mem_append.2 ⟨hs, ht⟩

theorem IsPlain.cons {s : List Char} (hc : 0x20 ≤ c.toNat) (hs : IsPlain s) : IsPlain (c :: s) :=
  List.forall_mem_cons.2 ⟨Or.inl hc, hs⟩

theorem isPlain_nil : IsPlain [] := by
  simp [IsPlain]

theorem isPlain_newline (level : Nat) : IsPlain (newline level) := by
  refine List.forall_mem_cons.2 ⟨Or.inr rfl, fun c hc => Or.inl ?_⟩
  rw [(List.mem_replicate.1 hc).2]
  decide

/-- Controls are escaped, so none is left in a printed string. -/
theorem isPlain_escapeChar (c : Char) : IsPlain (escapeChar c) := by
  have hhex : ∀ n < 16, 0x20 ≤ (hexDigit n).toNat := by decide
  unfold escapeChar
  split
  case h_8 =>
    split
    case isTrue hc =>
      have hhigh := hhex (c.toNat / 16) (by omega)
      have hlow := hhex (c.toNat % 16) (by omega)
      simp [IsPlain, hhigh, hlow]
    case isFalse hc =>
      simp only [IsPlain, List.mem_singleton]
      rintro _ rfl
      omega
  all_goals simp [IsPlain]

theorem isPlain_quoted (k : String) : IsPlain (quoted k) := by
  have hall : IsPlain (k.toList.flatMap escapeChar) := by
    intro c hc
    obtain ⟨d, -, hd⟩ := List.mem_flatMap.1 hc
    exact isPlain_escapeChar d c hd
  exact .cons (by decide) (hall.append (.cons (by decide) isPlain_nil))

theorem isPlain_toString (n : Int) : IsPlain (toString n).toList := by
  have hchar {c : Char} (h : inNumber c) : 0x20 ≤ c.toNat := by
    simp only [inNumber, Bool.or_eq_true, decide_eq_true_eq, List.mem_cons, List.not_mem_nil,
      or_false, Char.isDigit, Bool.and_eq_true] at h
    rcases h with ⟨h, -⟩ | rfl | rfl | rfl | rfl | rfl
    · exact Nat.le_trans (by decide) (UInt32.le_iff_toNat_le.1 h)
    all_goals decide
  exact fun c hc => Or.inl (hchar ((number_toString n).inNumber c hc))

theorem isPlain_printItems {vs : List Json} (h : ∀ v ∈ vs, ∀ level, IsPlain (printAt level v))
    (level : Nat) : IsPlain (printItems level vs) := by
  induction vs with
  | nil => exact isPlain_nil
  | cons v vs ih =>
    rw [List.forall_mem_cons] at h
    rw [printItems]
    exact .cons (by decide) (((isPlain_newline level).append (h.1 level)).append (ih h.2))

theorem isPlain_printMembers {ms : List (String × Json)}
    (h : ∀ m ∈ ms, ∀ level, IsPlain (printAt level m.2)) (level : Nat) :
    IsPlain (printMembers level ms) := by
  induction ms with
  | nil => exact isPlain_nil
  | cons m ms ih =>
    rw [List.forall_mem_cons] at h
    rw [printMembers]
    exact .cons (by decide) (((((isPlain_newline level).append (isPlain_quoted m.1)).append
      (by simp [IsPlain])).append (h.1 level)).append (ih h.2))

/-- No control character is printed but the ends of lines. -/
theorem isPlain_printAt (v : Json) (level : Nat) : IsPlain (printAt level v) := by
  induction v using induction generalizing level with
  | null => simp [printAt, IsPlain]
  | bool b => cases b <;> simp [printAt, IsPlain]
  | number n => exact isPlain_toString n
  | string k => exact isPlain_quoted k
  | array items ih =>
    cases items with
    | nil => simp [printAt, IsPlain]
    | cons v vs =>
      rw [List.forall_mem_cons] at ih
      rw [printAt]
      exact .cons (by decide) (((((isPlain_newline _).append (ih.1 _)).append
        (isPlain_printItems ih.2 _)).append (isPlain_newline _)).append (by simp [IsPlain]))
  | object members ih =>
    cases members with
    | nil => simp [printAt, IsPlain]
    | cons m ms =>
      rw [List.forall_mem_cons] at ih
      rw [printAt]
      exact .cons (by decide) (((((((isPlain_newline _).append (isPlain_quoted _)).append
        (by simp [IsPlain])).append (ih.1 _)).append (isPlain_printMembers ih.2 _)).append
          (isPlain_newline _)).append (by simp [IsPlain]))

end Controls

end PlaybookTidy.Json
