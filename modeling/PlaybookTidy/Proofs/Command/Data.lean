import Mathlib.Data.List.Basic
import PlaybookTidy.Command.Fix
import PlaybookTidy.Command.Rules

/-!
What can be read back from the data that the commands print.
-/

namespace PlaybookTidy

theorem Rule.id_injective : Function.Injective Rule.id := by
  intro r r' h
  simpa using congrArg Rule.ofId? h

theorem Rule.toJson_injective : Function.Injective Rule.toJson := by
  intro r r' h
  exact Rule.id_injective (Json.string.inj h)

namespace Json

def member? (key : String) : Json → Option Json
  | object members => members.lookup key
  | _ => none

def items : Json → List Json
  | array items => items
  | _ => []

/-- The items of the list that a member holds, none if the member is left out. -/
def itemsAt (data : Json) (key : String) : List Json := ((data.member? key).map items).getD []

def number? : Json → Option Int
  | number n => some n
  | _ => none

def text? : Json → Option String
  | string s => some s
  | _ => none

def isTrue : Json → Bool
  | bool b => b
  | _ => false

@[simp] theorem member?_object (key : String) (members : List (String × Json)) :
    (object members).member? key = members.lookup key := rfl

/-- A member that may be left out is found under no other key. -/
@[simp] theorem lookup_optional {key k : String} (h : key ≠ k) (value : Option Json) :
    (optional k value).lookup key = none := by
  have hk : (key == k) = false := by simpa using h
  cases value <;> simp [optional, List.lookup_cons, hk]

theorem lookup_optionalList {key k : String} (items : List Json) :
    (optionalList k items).lookup key =
      if key = k ∧ items ≠ [] then some (array items) else none := by
  unfold optionalList
  cases items with
  | nil => simp
  | cons v vs =>
    by_cases h : key = k
    · simp [h]
    · have hk : (key == k) = false := by simpa using h
      simp [List.lookup_cons, h, hk]

end Json

namespace Command

variable {o : FixOptions} {s : Setup} {r : FixResult} {table : List TableRow} {t : Tree}

def changedCount (data : Json) : Int :=
  (((data.member? "summary").bind (Json.member? "changed")).bind Json.number?).getD 0

def enabledIds (data : Json) : List String :=
  (data.itemsAt "rules").filterMap fun r =>
    if ((r.member? "enabled").map Json.isTrue).getD false then (r.member? "id").bind Json.text?
    else none

@[simp] theorem Setup.lookup_configMember {key : String} (h : key ≠ "config") (s : Setup) :
    s.configMember.lookup key = none :=
  Json.lookup_optional h _

theorem changedCount_fixData : changedCount (fixData o s r) = r.summary.changed := by
  have hsummary : (fixData o s r).member? "summary" = some r.summary.toJson := by
    simp [fixData, FixResult.members, List.lookup_append, List.lookup_cons,
      Json.lookup_optionalList]
  simp [changedCount, hsummary, Summary.toJson, List.lookup_cons, Json.nat, Json.number?]

theorem itemsAt_rules_fixData : (fixData o s r).itemsAt "rules" = r.rules.map Rule.toJson := by
  simp [Json.itemsAt, fixData, FixResult.members, List.lookup_append, List.lookup_cons, Json.items]

theorem itemsAt_files_fixData :
    (fixData o s r).itemsAt "files" = r.files.map FileReport.toJson := by
  simp [Json.itemsAt, fixData, FixResult.members, List.lookup_append, List.lookup_cons, Json.items]

theorem itemsAt_patterns_rulesData :
    (rulesData s table).itemsAt "patterns" = s.defaults.patterns.map .string := by
  simp [Json.itemsAt, rulesData, List.lookup_append, List.lookup_cons, Json.items, Json.strings]

theorem itemsAt_exclude_rulesData :
    (rulesData s table).itemsAt "exclude" = s.defaults.exclude.map .string := by
  cases hexclude : s.defaults.exclude <;>
    simp [Json.itemsAt, rulesData, List.lookup_append, List.lookup_cons, Json.lookup_optionalList,
      Json.items, hexclude]

theorem itemsAt_fqcn_rulesData :
    (rulesData s table).itemsAt "fqcn" = table.map TableRow.toJson := by
  simp [Json.itemsAt, rulesData, List.lookup_append, List.lookup_cons, Json.lookup_optionalList,
    Json.items]

/-- What `rules` shows is the configuration and the table in effect. -/
theorem rules_eq_ok {o : RulesOptions} {data : Json} {code : Int}
    (h : rules o t = .ok (data, code)) :
    ∃ s table, Setup.prepare t o.path o.config = .ok s ∧
      ModuleTable.effective s.defaults.fqcn = .ok table ∧ rulesData s table = data ∧ code = 0 := by
  unfold rules at h
  cases hs : Setup.prepare t o.path o.config with
  | error e => simp [hs, bind, Except.bind] at h
  | ok s =>
    cases htable : ModuleTable.effective s.defaults.fqcn with
    | error e => simp [hs, htable, bind, Except.bind] at h
    | ok table =>
      obtain ⟨rfl, rfl⟩ : rulesData s table = data ∧ 0 = code := by
        simpa [hs, htable, bind, Except.bind, pure, Except.pure] using h
      exact ⟨s, table, rfl, htable, rfl, rfl⟩

/-- The rules that are shown as enabled are those that a fixer with the same settings applies. -/
theorem enabledIds_rulesData :
    enabledIds (rulesData s table) = (Rule.normalize s.defaults.rules).map Rule.id := by
  have hrules : (rulesData s table).itemsAt "rules" =
      Rule.all.map (ruleInfo s.defaults.rules) := by
    simp [Json.itemsAt, rulesData, List.lookup_append, List.lookup_cons, Json.items]
  have hone : ∀ r : Rule, (if (((ruleInfo s.defaults.rules r).member? "enabled").map
        Json.isTrue).getD false then ((ruleInfo s.defaults.rules r).member? "id").bind Json.text?
      else none) = if r ∈ s.defaults.rules then some r.id else none := by
    intro r
    simp [ruleInfo, List.lookup_cons, Json.isTrue, Json.text?]
  simp only [enabledIds, hrules, List.filterMap_map, Function.comp_def, hone]
  -- Telling for each rule whether it is selected comes to selecting among all rules.
  rw [Rule.normalize, ← List.filterMap_eq_map, ← List.filterMap_eq_filter, List.filterMap_filterMap]
  apply List.filterMap_congr
  intro r _
  by_cases hr : r ∈ s.defaults.rules <;> simp [Option.guard, hr]

end Command

end PlaybookTidy
