import Mathlib.Data.List.Forall2
import PlaybookTidy.Config.Reader
import PlaybookTidy.Proofs.Json.Grammar

/-!
How a JSON value spells a configuration, and what may change in a spelling without a change of what
it says.
-/

namespace PlaybookTidy.Config

open Json

variable {α : Type}

def IsText (v : Document) (s : String) : Prop := v = .string (some s)

/-- A rule is its name, or an object with the name for a key and a null. -/
def IsRule (v : Document) (r : Rule) : Prop :=
  v = .string (some r.id) ∨ v = .object [(some r.id, .null)]

def IsList (P : Document → α → Prop) (v : Document) (xs : List α) : Prop :=
  ∃ items, v = .array items ∧ List.Forall₂ P items xs

/-- Replacements by short name. Of several for a name the last one counts. -/
def IsOverrides (v : Document) (o : Overrides) : Prop :=
  ∃ entries : List (String × String),
    v = .object (entries.map fun e => (some e.1, .string (some e.2))) ∧
      ∀ short, o.get? short = entries.reverse.lookup short

def named (name : String) (members : List (Option String × Document)) : List Document :=
  (members.filter fun m => m.1 = some name).map Prod.snd

/-- The values that a record has for a field: those of the members with its name, or the item in
its place. -/
def field (names : List String) (name : String) : Document → List Document
  | .object members => named name members
  | .array items => items[names.idxOf name]?.toList
  | _ => []

/-- A record with these fields is an object, or an array of no more items than there are fields. -/
def IsRecord (names : List String) : Document → Prop
  | .object members => ∀ m ∈ members, m.1.isSome
  | .array items => items.length ≤ names.length
  | _ => False

/-- A field is there once, or it is absent and has its built-in value. -/
def Given (P : Document → α → Prop) (found : List Document) (builtin x : α) : Prop :=
  (found = [] ∧ x = builtin) ∨ ∃ v, found = [v] ∧ P v x

def settingNames : List String := ["patterns", "exclude", "rules", "fqcn"]

/-- The value spells these settings. -/
structure IsSettings (v : Document) (d : Defaults) : Prop where
  record : IsRecord settingNames v
  patterns : Given (IsList IsText) (field settingNames "patterns" v)
    ({} : Defaults).patterns d.patterns
  exclude : Given (IsList IsText) (field settingNames "exclude" v) ({} : Defaults).exclude d.exclude
  rules : Given (IsList IsRule) (field settingNames "rules" v) ({} : Defaults).rules d.rules
  fqcn : Given IsOverrides (field settingNames "fqcn" v) ({} : Defaults).fqcn d.fqcn

/-- The value spells a configuration with these settings. -/
structure IsConfig (v : Document) (d : Defaults) : Prop where
  record : IsRecord ["defaults"] v
  settings : Given IsSettings (field ["defaults"] "defaults" v) {} d

/-- Other spellings of a record: members may change places, members with unknown names may come and
go, the value of a field may be spelled in another way, and fields that are the first ones may stand
in an array. -/
inductive Respelled (names : List String) (inner : String → Document → Document → Prop) :
    Document → Document → Prop
  | refl (v) : Respelled names inner v v
  | symm {v w} (h : Respelled names inner v w) : Respelled names inner w v
  | trans {u v w} (h : Respelled names inner u v) (h' : Respelled names inner v w) :
      Respelled names inner u w
  | permuted {ms ns} (h : ms.Perm ns) : Respelled names inner (.object ms) (.object ns)
  | unknown {name : String} (hname : name ∉ names) (v l r) :
      Respelled names inner (.object (l ++ r)) (.object (l ++ (some name, v) :: r))
  | field {name : String} {v w : Document} (h : inner name v w) (l r) :
      Respelled names inner (.object (l ++ (some name, v) :: r)) (.object (l ++ (some name, w) :: r))
  | inOrder {items} (h : items.length ≤ names.length) :
      Respelled names inner (.object ((names.map some).zip items)) (.array items)

/-- A rule in a list is written as an object. -/
inductive RuleRespelled : Document → Document → Prop
  | asObject (name l r) : RuleRespelled (.array (l ++ .string (some name) :: r))
      (.array (l ++ .object [(some name, .null)] :: r))

def SettingsRespelled : Document → Document → Prop :=
  Respelled settingNames fun name v w => name = "rules" ∧ RuleRespelled v w

def ConfigRespelled : Document → Document → Prop :=
  Respelled ["defaults"] fun _ v w => SettingsRespelled v w

variable {names : List String} {name : String} {v w : Document}

section Given

variable {P : Document → α → Prop} {found found' : List Document} {builtin x : α}

/-- The order in which the values of a field are found does not matter, since there is one at most.
-/
theorem given_perm (h : found.Perm found') :
    Given P found builtin x ↔ Given P found' builtin x := by
  have hnil : found = [] ↔ found' = [] := by
    refine ⟨fun h' => ?_, fun h' => ?_⟩
    · exact List.nil_perm.1 (h' ▸ h)
    · exact List.perm_nil.1 (h' ▸ h)
  have hone (v : Document) : found = [v] ↔ found' = [v] := by
    refine ⟨fun h' => ?_, fun h' => ?_⟩
    · exact (List.singleton_perm.1 (h' ▸ h)).symm
    · exact List.perm_singleton.1 (h' ▸ h)
  simp only [Given, hnil, hone]

theorem given_replace (h : P v x ↔ P w x) (l r : List Document) :
    Given P (l ++ v :: r) builtin x ↔ Given P (l ++ w :: r) builtin x := by
  have hone (u u' : Document) : l ++ u :: r = [u'] ↔ l = [] ∧ r = [] ∧ u = u' := by
    cases l with
    | nil => simp [and_comm]
    | cons => simp
  have hsome (u : Document) : (∃ u', l ++ u :: r = [u'] ∧ P u' x) ↔ l = [] ∧ r = [] ∧ P u x := by
    simp only [hone]
    constructor
    · rintro ⟨u', ⟨hl, hr, rfl⟩, hu⟩
      exact ⟨hl, hr, hu⟩
    · rintro ⟨hl, hr, hu⟩
      exact ⟨u, ⟨hl, hr, rfl⟩, hu⟩
  simp only [Given, hsome, h, List.append_eq_nil_iff, List.cons_ne_nil, and_false, false_and]

end Given

section Named

theorem named_append (l r : List (Option String × Document)) :
    named name (l ++ r) = named name l ++ named name r := by
  rw [named, List.filter_append, List.map_append]
  rfl

theorem named_cons_self (v : Document) (r : List (Option String × Document)) :
    named name ((some name, v) :: r) = v :: named name r := by
  simp [named]

theorem named_cons_ne {k : String} (h : k ≠ name) (v : Document)
    (r : List (Option String × Document)) : named name ((some k, v) :: r) = named name r := by
  simp [named, h]

/-- In a record written as an array a field has the item in its place. -/
theorem named_zip (hnames : names.Nodup) (h : name ∈ names) (items : List Document) :
    named name ((names.map some).zip items) = items[names.idxOf name]?.toList := by
  induction names generalizing items with
  | nil => cases h
  | cons n ns ih =>
    rw [List.nodup_cons] at hnames
    cases items with
    | nil => simp [named]
    | cons v vs =>
      rw [List.map_cons, List.zip_cons_cons]
      by_cases hn : n = name
      · cases hn
        -- No later field has the same name.
        have hnone : named name ((ns.map some).zip vs) = [] := by
          rw [named, List.map_eq_nil_iff, List.filter_eq_nil_iff]
          intro m hm heq
          obtain ⟨n, hn, hkey⟩ := List.mem_map.1 (List.of_mem_zip hm).1
          cases hkey.trans (of_decide_eq_true heq)
          exact hnames.1 hn
        rw [named_cons_self, hnone, List.idxOf_cons_self]
        rfl
      · have hmem : name ∈ ns := (List.mem_cons.1 h).resolve_left (Ne.symm hn)
        rw [named_cons_ne hn, ih hnames.2 hmem, List.idxOf_cons_ne _ hn]
        rfl

end Named

namespace Respelled

variable {inner : String → Document → Document → Prop}

/-- Respelling a record leaves it a record. -/
theorem isRecord_iff (h : Respelled names inner v w) : IsRecord names v ↔ IsRecord names w := by
  induction h with
  | refl => exact Iff.rfl
  | symm _ ih => exact ih.symm
  | trans _ _ ih ih' => exact ih.trans ih'
  | permuted h => exact forall_congr' fun m => imp_congr_left h.mem_iff
  | unknown | field =>
    simp only [IsRecord, List.forall_mem_append, List.forall_mem_cons, Option.isSome_some, true_and]
  | inOrder h =>
    -- both are records: the array is short enough, and the object has names for its keys
    refine iff_of_true ?_ h
    intro m hm
    obtain ⟨n, -, hn⟩ := List.mem_map.1 (List.of_mem_zip hm).1
    simp [← hn]

/-- A field has the same values in both spellings if they say the same wherever they differ. -/
theorem given_iff {P : Document → α → Prop} {builtin x : α} (hnames : names.Nodup)
    (hname : name ∈ names) (hinner : ∀ v w, inner name v w → (P v x ↔ P w x))
    (h : Respelled names inner v w) :
    Given P (Config.field names name v) builtin x ↔
      Given P (Config.field names name w) builtin x := by
  induction h with
  | refl => exact Iff.rfl
  | symm _ ih => exact ih.symm
  | trans _ _ ih ih' => exact ih.trans ih'
  | permuted h => exact given_perm ((h.filter _).map _)
  | @unknown k hk v l r =>
    have hne : k ≠ name := fun h => hk (h ▸ hname)
    simp only [Config.field, named_append, named_cons_ne hne]
  | @field k v w h l r =>
    -- the changed member counts only for the field that has its name
    simp only [Config.field, named_append]
    by_cases hk : k = name
    · cases hk
      rw [named_cons_self, named_cons_self]
      exact given_replace (hinner v w h) _ _
    · rw [named_cons_ne hk, named_cons_ne hk]
  | inOrder h =>
    simp only [Config.field, named_zip hnames hname]

end Respelled

section Rules

theorem forall₂_replace {P : Document → α → Prop} (h : ∀ x, P v x ↔ P w x)
    (l r : List Document) (xs : List α) :
    List.Forall₂ P (l ++ v :: r) xs ↔ List.Forall₂ P (l ++ w :: r) xs := by
  induction l generalizing xs with
  | nil => simp only [List.nil_append, List.forall₂_cons_left_iff, h]
  | cons u l ih => simp only [List.cons_append, List.forall₂_cons_left_iff, ih]

theorem isRule_string_iff (r : Rule) :
    IsRule (.string (some name)) r ↔ IsRule (.object [(some name, .null)]) r := by
  simp [IsRule]

theorem RuleRespelled.isList_iff (h : RuleRespelled v w) (rules : List Rule) :
    IsList IsRule v rules ↔ IsList IsRule w rules := by
  cases h with
  | asObject name l r =>
    have hreplace := forall₂_replace (@isRule_string_iff name) l r rules
    simpa [IsList] using hreplace

end Rules

/-- Respelled settings are the same settings. -/
theorem SettingsRespelled.isSettings_iff (h : SettingsRespelled v w) (d : Defaults) :
    IsSettings v d ↔ IsSettings w d := by
  have hnames : settingNames.Nodup := by decide
  have hother {α : Type} {P : Document → α → Prop} {builtin x : α} {name : String}
      (hname : name ∈ settingNames) (hne : name ≠ "rules") :
      Given P (field settingNames name v) builtin x ↔
        Given P (field settingNames name w) builtin x :=
    Respelled.given_iff hnames hname (fun _ _ hinner => absurd hinner.1 hne) h
  have hrules (x : List Rule) : Given (IsList IsRule) (field settingNames "rules" v)
      ({} : Defaults).rules x ↔ Given (IsList IsRule) (field settingNames "rules" w)
      ({} : Defaults).rules x :=
    Respelled.given_iff hnames (by decide) (fun _ _ hinner => hinner.2.isList_iff x) h
  constructor
  · rintro ⟨hrecord, hp, he, hr, hf⟩
    exact ⟨h.isRecord_iff.1 hrecord, (hother (by decide) (by decide)).1 hp,
      (hother (by decide) (by decide)).1 he, (hrules _).1 hr, (hother (by decide) (by decide)).1 hf⟩
  · rintro ⟨hrecord, hp, he, hr, hf⟩
    exact ⟨h.isRecord_iff.2 hrecord, (hother (by decide) (by decide)).2 hp,
      (hother (by decide) (by decide)).2 he, (hrules _).2 hr, (hother (by decide) (by decide)).2 hf⟩

/-- What a configuration says does not depend on its spelling. -/
theorem ConfigRespelled.isConfig_iff (h : ConfigRespelled v w) (d : Defaults) :
    IsConfig v d ↔ IsConfig w d := by
  have hgiven : Given IsSettings (field ["defaults"] "defaults" v) {} d ↔
      Given IsSettings (field ["defaults"] "defaults" w) {} d :=
    Respelled.given_iff (by decide) (by decide) (fun _ _ hinner => hinner.isSettings_iff d) h
  constructor
  · rintro ⟨hrecord, hsettings⟩
    exact ⟨h.isRecord_iff.1 hrecord, hgiven.1 hsettings⟩
  · rintro ⟨hrecord, hsettings⟩
    exact ⟨h.isRecord_iff.2 hrecord, hgiven.2 hsettings⟩

end PlaybookTidy.Config
