import PlaybookTidy.Proofs.Config.Spelling
import PlaybookTidy.Proofs.Json.Scan
import PlaybookTidy.Proofs.Sorted

/-!
Every spelling of a configuration is read as what it says.
-/

namespace PlaybookTidy.Config

open Json

variable {α σ : Type}

/-- The reader gives what a value says, wherever the value stands. -/
def Reads (read : Reader α) (P : Document → α → Prop) : Prop :=
  ∀ ⦃v x s r⦄, Derives (.value v) s r → Ends r → P v x → read s = .ok (x, r)

def ReadsMember (member : String → σ → Reader σ) (step : String → Document → σ → σ → Prop) : Prop :=
  ∀ ⦃k v state state' s s₁ r⦄, Space s (':' :: s₁) → Derives (.value v) s₁ r → Ends r →
    step k v state state' → member k state s = .ok (state', r)

inductive Run (step : String → Document → σ → σ → Prop) :
    List (Option String × Document) → σ → σ → Prop
  | nil (state) : Run step [] state state
  | cons {k v ms state state₁ state'} (h : step k v state state₁) (hms : Run step ms state₁ state') :
      Run step ((some k, v) :: ms) state state'

variable {s s₁ r : List Char} {v : Document} {items : List Document}
  {ms : List (Option String × Document)}

theorem lt_stepsFor {n : Nat} (h : n ≤ s.length) : n < stepsFor s := by
  rw [stepsFor]
  omega

section Arrays

variable {P : Document → α → Prop} {item : Reader α} {xs : List α} {fuel : Nat} {first : Bool}

theorem nextItem?_nil (h : Derives (.items first []) s r) :
    nextItem? first s = .ok none ∧ Space s (']' :: r) := by
  cases h with
  | closeArray h => exact ⟨by simp only [nextItem?, h.dropSpace_cons rfl], h⟩

/-- The reader finds the next item where the grammar has it. -/
theorem nextItem?_cons (h : Derives (.items first (v :: items)) s r) :
    ∃ s₁ s₂, nextItem? first s = .ok (some s₁) ∧ Derives (.value v) s₁ s₂ ∧ Ends s₂ ∧
      Derives (.items false items) s₂ r := by
  cases h with
  | @item _ _ _ _ s₁ s₂ _ h hv hvs =>
    obtain ⟨c, t, hs, hc⟩ := hv.head
    have hvalue := hv.value_dropSpace
    refine ⟨dropSpace s₁, s₂, ?_, hvalue, hvs.items_ends, hvs⟩
    cases first with
    | true =>
      cases show s = s₁ from h
      simp [nextItem?, hs]
    | false =>
      simp [nextItem?, Space.dropSpace_cons h rfl, afterComma, hs, hc, Except.map]

/-- Items are read one by one if each of them is read wherever it stands. -/
theorem readItems_eq (hitem : Reads item P) (hxs : List.Forall₂ P items xs)
    (h : Derives (.items first items) s r) (hfuel : items.length < fuel) :
    ∃ s₁, readItems item fuel first s = .ok (xs, s₁) ∧ Space s₁ (']' :: r) := by
  induction hxs generalizing first s fuel with
  | nil =>
    obtain ⟨hnext, hclose⟩ := nextItem?_nil h
    cases fuel with
    | zero => omega
    | succ fuel =>
      exact ⟨s, by simp [readItems, hnext, bind, Except.bind, pure, Except.pure], hclose⟩
  | cons hx hxs ih =>
    obtain ⟨s₁, s₂, hnext, hv, hends, hrest⟩ := nextItem?_cons h
    cases fuel with
    | zero => omega
    | succ fuel =>
      obtain ⟨s₃, hread, hclose⟩ := ih hrest (Nat.lt_of_succ_lt_succ hfuel)
      have hvalue := hitem hv hends hx
      exact ⟨s₃, by simp [readItems, hnext, hvalue, hread, bind, Except.bind, pure, Except.pure],
        hclose⟩

theorem closeArray_eq (h : Space s (']' :: r)) : closeArray s = .ok r := by
  simp only [closeArray, h.dropSpace_cons rfl]

theorem reads_readArray (hitem : Reads item P) : Reads (readArray item) (IsList P) := by
  rintro v xs s r h hr ⟨items, rfl, hxs⟩
  obtain ⟨s₁, hs, hitems⟩ := h.of_array
  obtain ⟨s₂, hread, hclose⟩ := readItems_eq hitem hxs hitems (lt_stepsFor hitems.items_length_le)
  simp [readArray, hs.dropSpace_cons rfl, hread, closeArray_eq hclose, bind, Except.bind, pure,
    Except.pure]

end Arrays

section Members

variable {member : String → σ → Reader σ} {step : String → Document → σ → σ → Prop}
  {state state' : σ} {fuel : Nat} {first : Bool}

theorem nextKey?_nil (h : Derives (.members first []) s r) :
    nextKey? first s = .ok none ∧ Space s ('\x7d' :: r) := by
  cases h with
  | closeObject h => exact ⟨by simp only [nextKey?, h.dropSpace_cons rfl], h⟩

/-- The reader finds the next key, its colon and its value where the grammar has them. -/
theorem nextKey?_cons {m : Option String × Document} (h : Derives (.members first (m :: ms)) s r) :
    ∃ ps s₁ s₂ s₃ s₄, nextKey? first s = .ok (some s₁) ∧ Pieces ps s₁ s₂ ∧ stringOf ps = m.1 ∧
      Space s₂ (':' :: s₃) ∧ Derives (.value m.2) s₃ s₄ ∧ Ends s₄ ∧
      Derives (.members false ms) s₄ r := by
  cases h with
  | @member _ ps v _ _ s₁ s₂ s₃ s₄ s₅ _ h hquote hps hcolon hv hms =>
    refine ⟨ps, s₂, s₃, s₄, s₅, ?_, hps, rfl, hcolon, hv, hms.members_ends, hms⟩
    cases first with
    | true =>
      cases show s = s₁ from h
      simp [nextKey?, hquote.dropSpace_cons rfl]
    | false =>
      simp [nextKey?, Space.dropSpace_cons h rfl, afterComma, hquote.dropSpace_cons rfl, bind,
        Except.bind]

/-- Members are read one by one, and the state takes the steps that they say. -/
theorem readMembers_eq (hmember : ReadsMember member step) (hrun : Run step ms state state')
    (h : Derives (.members first ms) s r) (hfuel : ms.length < fuel) :
    ∃ s₁, readMembers member fuel first state s = .ok (state', s₁) ∧ Space s₁ ('\x7d' :: r) := by
  induction hrun generalizing first s fuel with
  | nil =>
    obtain ⟨hnext, hclose⟩ := nextKey?_nil h
    cases fuel with
    | zero => omega
    | succ fuel =>
      exact ⟨s, by simp [readMembers, hnext, bind, Except.bind, pure, Except.pure], hclose⟩
  | cons hstep hms ih =>
    obtain ⟨ps, s₁, s₂, s₃, s₄, hnext, hps, hk, hcolon, hv, hends, hrest⟩ := nextKey?_cons h
    cases fuel with
    | zero => omega
    | succ fuel =>
      obtain ⟨s₅, hread, hclose⟩ := ih hrest (Nat.lt_of_succ_lt_succ hfuel)
      have hkey := readString_eq hps hk
      have hvalue := hmember hcolon hv hends hstep
      exact ⟨s₅, by simp [readMembers, hnext, hkey, hvalue, hread, bind, Except.bind], hclose⟩

theorem closeObject_eq (h : Space s ('\x7d' :: r)) : closeObject s = r := by
  rw [closeObject, h.dropSpace_cons rfl]
  rfl

end Members

section Texts

theorem reads_readText : Reads readText IsText := by
  rintro v k s r h - rfl
  obtain ⟨ps, s₁, hs, hps, hk⟩ := h.of_string
  simp only [readText, hs.dropSpace_cons rfl]
  exact readString_eq hps hk

theorem ruleOfName_id (rule : Rule) (s : List Char) : ruleOfName rule.id s = .ok (rule, s) := by
  simp only [ruleOfName, Rule.ofId?_id]

theorem readNull_eq (h : Derives (.value .null) s r) : readNull s = .ok ((), r) := by
  simp only [readNull, h.of_null.dropSpace_cons rfl]
  rfl

/-- A rule is read in either of its spellings. -/
theorem reads_readRule : Reads readRule IsRule := by
  rintro v rule s r h - (rfl | rfl)
  · obtain ⟨ps, s₁, hs, hps, hk⟩ := h.of_string
    simp [readRule, hs.dropSpace_cons rfl, readString_eq hps hk, ruleOfName_id, bind, Except.bind]
  · obtain ⟨s₁, hs, hmembers⟩ := h.of_object
    generalize hm : [(some rule.id, Document.null)] = members at hmembers
    cases hmembers with
    | closeObject => cases hm
    | member h hquote hps hcolon hv hms =>
      injection hm with hfirst hrest
      injection hfirst with hk hnull
      subst hrest hnull
      cases h
      have hclose := (nextKey?_nil hms).2
      simp [readRule, hs.dropSpace_cons rfl, readRuleKey, hquote.dropSpace_cons rfl,
        readString_eq hps hk.symm, ruleOfName_id, skipColon_eq hcolon, readNull_eq hv,
        hclose.dropSpace_cons rfl, bind, Except.bind]

end Texts

section Overrides

theorem overrides_eq_of_entries {o o' : Overrides} (h : o.entries = o'.entries) : o = o' := by
  cases o
  cases o'
  simpa using h

def setAll (o : Overrides) (entries : List (String × String)) : Overrides :=
  entries.foldl (fun o e => o.insert e.1 e.2) o

theorem entries_setAll (o : Overrides) (entries : List (String × String)) :
    (setAll o entries).entries = entries.foldl (fun m e => insertKey e.1 e.2 m) o.entries := by
  induction entries generalizing o with
  | nil => rfl
  | cons e entries ih => exact ih (o.insert e.1 e.2)

/-- Overrides are those that are set one after the other, where the last one of a name counts. -/
theorem eq_setAll {o : Overrides} {entries : List (String × String)}
    (h : ∀ short, o.get? short = entries.reverse.lookup short) :
    o = setAll Overrides.empty entries := by
  refine overrides_eq_of_entries (o.increasing.eq_of_lookup (setAll _ _).increasing fun k => ?_)
  rw [entries_setAll, lookup_foldl_insertKey]
  exact (h k).trans (Option.or_none ..).symm

def SetsOverride (k : String) (v : Document) (o o' : Overrides) : Prop :=
  ∃ fqcn, IsText v fqcn ∧ o' = o.insert k fqcn

theorem readsMember_readOverride : ReadsMember readOverride SetsOverride := by
  rintro k v o _ s s₁ r hcolon hv hr ⟨fqcn, hfqcn, rfl⟩
  simp [readOverride, skipColon_eq hcolon, reads_readText hv hr hfqcn, bind, Except.bind, pure,
    Except.pure]

theorem run_setsOverride (o : Overrides) (entries : List (String × String)) :
    Run SetsOverride (entries.map fun e => (some e.1, .string (some e.2))) o (setAll o entries) := by
  induction entries generalizing o with
  | nil => exact .nil o
  | cons e entries ih => exact .cons ⟨e.2, rfl, rfl⟩ (ih _)

theorem reads_readOverrides : Reads readOverrides IsOverrides := by
  rintro v o s r h - ⟨entries, rfl, ho⟩
  obtain ⟨s₁, hs, hmembers⟩ := h.of_object
  obtain ⟨s₂, hread, hclose⟩ := readMembers_eq readsMember_readOverride
    (run_setsOverride Overrides.empty entries) hmembers (lt_stepsFor hmembers.members_length_le)
  simp [readOverrides, hs.dropSpace_cons rfl, hread, closeObject_eq hclose, eq_setAll ho, bind,
    Except.bind, pure, Except.pure]

end Overrides

section Records

/-- What a field holds before and after its values were read. -/
def Filled (P : Document → α → Prop) (found : List Document) (old new : Option α) : Prop :=
  (found = [] ∧ new = old) ∨ ∃ v x, found = [v] ∧ old = none ∧ P v x ∧ new = some x

variable {P : Document → α → Prop} {found : List Document} {old new : Option α} {value : Reader α}

/-- A field that is given once or absent is filled with what it stands for. -/
theorem exists_filled {builtin x : α} (h : Given P found builtin x) :
    ∃ new, Filled P found none new ∧ new.getD builtin = x := by
  rcases h with ⟨hfound, rfl⟩ | ⟨v, hfound, hv⟩
  · exact ⟨none, Or.inl ⟨hfound, rfl⟩, rfl⟩
  · exact ⟨some x, Or.inr ⟨v, x, hfound, rfl, hv, rfl⟩, rfl⟩

/-- A field is filled once: it was empty before and no other value comes after. -/
theorem filled_cons (h : Filled P (v :: found) old new) :
    found = [] ∧ old = none ∧ ∃ x, P v x ∧ new = some x := by
  rcases h with ⟨hfound, -⟩ | ⟨w, x, hfound, hold, hw, hnew⟩
  · cases hfound
  · cases hfound
    exact ⟨rfl, hold, x, hw, hnew⟩

theorem readField_eq (hvalue : Reads value P) {x : α} (name : String)
    (hcolon : Space s (':' :: s₁)) (hv : Derives (.value v) s₁ r) (hr : Ends r) (hx : P v x) :
    readField name none value s = .ok (some x, r) := by
  simp [readField, skipColon_eq hcolon, hvalue hv hr hx, bind, Except.bind, pure, Except.pure]

theorem skipField_eq (state : σ) (hcolon : Space s (':' :: s₁)) (hv : Derives (.value v) s₁ r)
    (hr : Ends r) : skipField state s = .ok (state, r) := by
  simp [skipField, skipColon_eq hcolon, skipAny_eq hv hr, bind, Except.bind, pure, Except.pure]

/-- The item in the next place is read if it is there. -/
theorem readNext_eq (hvalue : Reads value P) {first : Bool} {n : Nat}
    (h : Derives (.items first (items.drop n)) s r)
    (hnew : Filled P items[n]?.toList none new) :
    ∃ s₁, readNext first value s = .ok (new, s₁) ∧
      Derives (.items false (items.drop (n + 1))) s₁ r := by
  rcases Nat.lt_or_ge n items.length with hn | hn
  -- the item is there and is read, or the array ends here and stays as it is
  · rw [List.getElem?_eq_getElem hn] at hnew
    obtain ⟨-, -, x, hx, rfl⟩ := filled_cons hnew
    rw [List.drop_eq_getElem_cons hn] at h
    obtain ⟨s₁, s₂, hnext, hv, hends, hrest⟩ := nextItem?_cons h
    have hread := hvalue hv hends hx
    exact ⟨s₂, by simp [readNext, hnext, hread, bind, Except.bind, pure, Except.pure], hrest⟩
  · rw [List.getElem?_eq_none hn] at hnew
    obtain ⟨-, rfl⟩ : True ∧ new = none := by
      rcases hnew with ⟨-, rfl⟩ | ⟨v, x, hfound, -⟩
      · exact ⟨trivial, rfl⟩
      · cases hfound
    rw [List.drop_eq_nil_of_le hn] at h
    obtain ⟨hnext, hclose⟩ := nextItem?_nil h
    refine ⟨s, by simp [readNext, hnext, bind, Except.bind, pure, Except.pure], ?_⟩
    rw [List.drop_eq_nil_of_le (by omega)]
    exact .closeArray hclose

variable {fields : Reader σ} {member : String → σ → Reader σ}
  {step : String → Document → σ → σ → Prop} {state state' : σ}

/-- A record in the form of an object is read member by member. -/
theorem readRecord_object (wanted : String) (hmember : ReadsMember member step)
    (h : Derives (.value (.object ms)) s r) (hrun : Run step ms state state') :
    readRecord wanted fields member state s = .ok (state', r) := by
  obtain ⟨s₁, hs, hmembers⟩ := h.of_object
  obtain ⟨s₂, hread, hclose⟩ := readMembers_eq hmember hrun hmembers
    (lt_stepsFor hmembers.members_length_le)
  simp [readRecord, hs.dropSpace_cons rfl, hread, closeObject_eq hclose, bind, Except.bind, pure,
    Except.pure]

/-- A record in the form of an array is read by the place of its items. -/
theorem readRecord_array (wanted : String) (h : Derives (.value (.array items)) s r)
    (hfields : ∀ s₁, Derives (.items true items) s₁ r →
      ∃ s₂, fields s₁ = .ok (state', s₂) ∧ Derives (.items false []) s₂ r) :
    readRecord wanted fields member state s = .ok (state', r) := by
  obtain ⟨s₁, hs, hitems⟩ := h.of_array
  obtain ⟨s₂, hread, hrest⟩ := hfields s₁ hitems
  simp [readRecord, hs.dropSpace_cons rfl, hread, closeArray_eq (nextItem?_nil hrest).2, bind,
    Except.bind, pure, Except.pure]

end Records

section Settings

inductive SetsField : String → Document → Fields → Fields → Prop
  | patterns {v f x} (hf : f.patterns = none) (hv : IsList IsText v x) :
      SetsField "patterns" v f { f with patterns := some x }
  | exclude {v f x} (hf : f.exclude = none) (hv : IsList IsText v x) :
      SetsField "exclude" v f { f with exclude := some x }
  | rules {v f x} (hf : f.rules = none) (hv : IsList IsRule v x) :
      SetsField "rules" v f { f with rules := some x }
  | fqcn {v f x} (hf : f.fqcn = none) (hv : IsOverrides v x) :
      SetsField "fqcn" v f { f with fqcn := some x }
  | unknown {k v f} (hk : k ∉ settingNames) : SetsField k v f f

/-- Each field of the settings is read by what stands behind its key, and others are passed over. -/
theorem readsMember_readSetting : ReadsMember readSetting SetsField := by
  intro k v f f' s s₁ r hcolon hv hr hset
  cases hset with
  | patterns hf hx =>
    have hread := readField_eq (reads_readArray reads_readText) "patterns" hcolon hv hr hx
    simp [readSetting, hf, readTexts, hread, bind, Except.bind, pure, Except.pure]
  | exclude hf hx =>
    have hread := readField_eq (reads_readArray reads_readText) "exclude" hcolon hv hr hx
    simp [readSetting, hf, readTexts, hread, bind, Except.bind, pure, Except.pure]
  | rules hf hx =>
    have hread := readField_eq (reads_readArray reads_readRule) "rules" hcolon hv hr hx
    simp [readSetting, hf, readRules, hread, bind, Except.bind, pure, Except.pure]
  | fqcn hf hx =>
    have hread := readField_eq reads_readOverrides "fqcn" hcolon hv hr hx
    simp [readSetting, hf, hread, bind, Except.bind, pure, Except.pure]
  | unknown hk =>
    have hskip := skipField_eq f hcolon hv hr
    simp only [settingNames, List.mem_cons, List.not_mem_nil, or_false, not_or] at hk
    simp [readSetting, hk, hskip]

/-- From the values of each field to the reading of all members. -/
theorem run_setsField {f f' : Fields} (hkeys : ∀ m ∈ ms, m.1.isSome)
    (hp : Filled (IsList IsText) (named "patterns" ms) f.patterns f'.patterns)
    (he : Filled (IsList IsText) (named "exclude" ms) f.exclude f'.exclude)
    (hr : Filled (IsList IsRule) (named "rules" ms) f.rules f'.rules)
    (hf : Filled IsOverrides (named "fqcn" ms) f.fqcn f'.fqcn) : Run SetsField ms f f' := by
  induction ms generalizing f with
  | nil =>
    have hsame {α : Type} {P : Document → α → Prop} {name : String} {old new : Option α}
        (h : Filled P (named name []) old new) : new = old := by
      rcases h with ⟨-, h⟩ | ⟨v, x, hfound, -⟩
      · exact h
      · cases hfound
    have hfields : f' = f := by
      cases f
      cases f'
      simp only [Fields.mk.injEq]
      exact ⟨hsame hp, hsame he, hsame hr, hsame hf⟩
    rw [hfields]
    exact .nil f
  | cons m ms ih =>
    rw [List.forall_mem_cons] at hkeys
    obtain ⟨k, v⟩ := m
    obtain ⟨name, rfl⟩ := Option.isSome_iff_exists.1 hkeys.1
    -- a known name has this value only, so its field is still empty and no later member has the name
    by_cases hname : name ∈ settingNames
    · simp only [settingNames, List.mem_cons, List.not_mem_nil, or_false] at hname
      rcases hname with rfl | rfl | rfl | rfl
      · rw [named_cons_self] at hp
        obtain ⟨hrest, hold, x, hx, hnew⟩ := filled_cons hp
        rw [named_cons_ne (by decide)] at he hr hf
        exact .cons (.patterns hold hx) (ih hkeys.2 (Or.inl ⟨hrest, hnew⟩) he hr hf)
      · rw [named_cons_self] at he
        obtain ⟨hrest, hold, x, hx, hnew⟩ := filled_cons he
        rw [named_cons_ne (by decide)] at hp hr hf
        exact .cons (.exclude hold hx) (ih hkeys.2 hp (Or.inl ⟨hrest, hnew⟩) hr hf)
      · rw [named_cons_self] at hr
        obtain ⟨hrest, hold, x, hx, hnew⟩ := filled_cons hr
        rw [named_cons_ne (by decide)] at hp he hf
        exact .cons (.rules hold hx) (ih hkeys.2 hp he (Or.inl ⟨hrest, hnew⟩) hf)
      · rw [named_cons_self] at hf
        obtain ⟨hrest, hold, x, hx, hnew⟩ := filled_cons hf
        rw [named_cons_ne (by decide)] at hp he hr
        exact .cons (.fqcn hold hx) (ih hkeys.2 hp he hr (Or.inl ⟨hrest, hnew⟩))
    · have hne {k : String} (hk : k ∈ settingNames) : name ≠ k := fun h => hname (h ▸ hk)
      rw [named_cons_ne (hne (by decide))] at hp he hr hf
      exact .cons (.unknown hname) (ih hkeys.2 hp he hr hf)

/-- The settings of an array are read one after the other. -/
theorem readInOrder_eq {f : Fields} (hlength : items.length ≤ settingNames.length)
    (hp : Filled (IsList IsText) items[0]?.toList none f.patterns)
    (he : Filled (IsList IsText) items[1]?.toList none f.exclude)
    (hr : Filled (IsList IsRule) items[2]?.toList none f.rules)
    (hf : Filled IsOverrides items[3]?.toList none f.fqcn)
    (h : Derives (.items true items) s r) :
    ∃ s₁, readInOrder s = .ok (f, s₁) ∧ Derives (.items false []) s₁ r := by
  obtain ⟨s₁, hread₁, h⟩ := readNext_eq (n := 0) (reads_readArray reads_readText) h hp
  obtain ⟨s₂, hread₂, h⟩ := readNext_eq (reads_readArray reads_readText) h he
  obtain ⟨s₃, hread₃, h⟩ := readNext_eq (reads_readArray reads_readRule) h hr
  obtain ⟨s₄, hread₄, h⟩ := readNext_eq reads_readOverrides h hf
  have hend : items.drop (0 + 1 + 1 + 1 + 1) = [] := List.drop_eq_nil_of_le hlength
  rw [hend] at h
  refine ⟨s₄, ?_, h⟩
  simp [readInOrder, readTexts, readRules, hread₁, hread₂, hread₃, hread₄, bind, Except.bind, pure,
    Except.pure]

/-- Settings are read in each of their spellings. -/
theorem reads_readDefaults : Reads readDefaults IsSettings := by
  rintro v d s r h - ⟨hrecord, hp, he, hr, hf⟩
  obtain ⟨patterns, hp, hpd⟩ := exists_filled hp
  obtain ⟨exclude, he, hed⟩ := exists_filled he
  obtain ⟨rules, hr, hrd⟩ := exists_filled hr
  obtain ⟨fqcn, hf, hfd⟩ := exists_filled hf
  have hd : (⟨patterns, exclude, rules, fqcn⟩ : Fields).toDefaults = d := by
    rw [Fields.toDefaults, hpd, hed, hrd, hfd]
  have hread : readRecord "struct Defaults" readInOrder readSetting {} s =
      .ok (⟨patterns, exclude, rules, fqcn⟩, r) := by
    cases v with
    | object ms =>
      exact readRecord_object _ readsMember_readSetting h (run_setsField hrecord hp he hr hf)
    | array items =>
      exact readRecord_array _ h fun s₁ hitems => readInOrder_eq hrecord hp he hr hf hitems
    | null | bool | integer | real | string => cases hrecord
  simp [readDefaults, hread, hd, bind, Except.bind, pure, Except.pure]

def SetsSection (k : String) (v : Document) (old new : Option Defaults) : Prop :=
  (k = "defaults" ∧ old = none ∧ ∃ d, IsSettings v d ∧ new = some d) ∨
    (k ≠ "defaults" ∧ new = old)

theorem readsMember_readSection : ReadsMember readSection SetsSection := by
  rintro k v old new s s₁ r hcolon hv hr (⟨rfl, rfl, d, hd, rfl⟩ | ⟨hk, rfl⟩)
  · rw [readSection, if_pos rfl]
    exact readField_eq reads_readDefaults "defaults" hcolon hv hr hd
  · rw [readSection, if_neg hk]
    exact skipField_eq new hcolon hv hr

theorem run_setsSection {old new : Option Defaults} (hkeys : ∀ m ∈ ms, m.1.isSome)
    (h : Filled IsSettings (named "defaults" ms) old new) : Run SetsSection ms old new := by
  induction ms generalizing old with
  | nil =>
    rcases h with ⟨-, rfl⟩ | ⟨v, x, hfound, -⟩
    · exact .nil new
    · cases hfound
  | cons m ms ih =>
    rw [List.forall_mem_cons] at hkeys
    obtain ⟨k, v⟩ := m
    obtain ⟨name, rfl⟩ := Option.isSome_iff_exists.1 hkeys.1
    by_cases hname : name = "defaults"
    · cases hname
      rw [named_cons_self] at h
      obtain ⟨hrest, hold, d, hd, hnew⟩ := filled_cons h
      exact .cons (Or.inl ⟨rfl, hold, d, hd, rfl⟩) (ih hkeys.2 (Or.inl ⟨hrest, hnew⟩))
    · rw [named_cons_ne hname] at h
      exact .cons (Or.inr ⟨hname, rfl⟩) (ih hkeys.2 h)

theorem reads_readConfig : Reads readConfig IsConfig := by
  rintro v d s r h - ⟨hrecord, hsettings⟩
  obtain ⟨found, hfound, rfl⟩ := exists_filled hsettings
  have hread : readRecord "struct LintfixConfig" (readNext true readDefaults) readSection none s =
      .ok (found, r) := by
    cases v with
    | object ms =>
      exact readRecord_object _ readsMember_readSection h (run_setsSection hrecord hfound)
    | array items =>
      refine readRecord_array _ h fun s₁ hitems => ?_
      obtain ⟨s₂, hread, hrest⟩ := readNext_eq (n := 0) reads_readDefaults hitems hfound
      have hend : items.drop (0 + 1) = [] := List.drop_eq_nil_of_le hrecord
      rw [hend] at hrest
      exact ⟨s₂, hread, hrest⟩
    | null | bool | integer | real | string => cases hrecord
  simp [readConfig, hread, bind, Except.bind, pure, Except.pure]

end Settings

/-- A text that denotes a configuration is read as the settings that it spells. -/
theorem parse_eq {text : String} {d : Defaults} (h : Denotes text.toList v) (hd : IsConfig v d) :
    parse text = .ok d := by
  obtain ⟨r, h, hr⟩ := h
  have hread := reads_readConfig h (hr.ends_of_ends ends_nil) hd
  have hfinish : finish r = .ok () := by
    rw [finish, hr.dropSpace]
    rfl
  simp only [parse, hread, hfinish]

end PlaybookTidy.Config
