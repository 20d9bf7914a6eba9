import PlaybookTidy.Failure

/-!
The rewrite rules, and how many replacements each of them made.
-/

namespace PlaybookTidy

inductive Rule
  | fqcn
  | truthy
  | names
  deriving DecidableEq, Repr

namespace Rule

def all : List Rule := [fqcn, truthy, names]

def id : Rule → String
  | fqcn => "fqcn"
  | truthy => "truthy"
  | names => "names"

/-- The lint rule that a rewritten file satisfies. -/
def lintRule : Rule → String
  | fqcn => "fqcn[action-core]"
  | truthy => "yaml[truthy]"
  | names => "name[casing]"

def description : Rule → String
  | fqcn => "Rewrite short module references to fully-qualified collection names"
  | truthy => "Rewrite yes/no values to true/false"
  | names => "Capitalize the first letter of task/handler names and notify references"

def ofId? (s : String) : Option Rule := all.find? fun r => r.id = s

def ofId (s : String) : Except Failure Rule :=
  match ofId? s with
  | some r => .ok r
  | none => .error (Failure.unknownRule s)

/-- The rules of a selection, each once and in the order of application. -/
def normalize (selected : List Rule) : List Rule := all.filter fun r => r ∈ selected

theorem mem_all (r : Rule) : r ∈ all := by
  cases r <;> decide

@[simp] theorem mem_normalize {r : Rule} {selected : List Rule} :
    r ∈ normalize selected ↔ r ∈ selected := by
  simp [normalize, mem_all]

@[simp] theorem ofId?_id (r : Rule) : ofId? r.id = some r := by
  cases r <;> decide

end Rule

structure Replacements where
  fqcn : Nat := 0
  truthy : Nat := 0
  names : Nat := 0
  deriving DecidableEq, Repr

namespace Replacements

def record (n : Replacements) (r : Rule) (count : Nat) : Replacements :=
  match r with
  | .fqcn => { n with fqcn := n.fqcn + count }
  | .truthy => { n with truthy := n.truthy + count }
  | .names => { n with names := n.names + count }

instance : Add Replacements where
  add a b := ⟨a.fqcn + b.fqcn, a.truthy + b.truthy, a.names + b.names⟩

@[simp] theorem fqcn_add (a b : Replacements) : (a + b).fqcn = a.fqcn + b.fqcn := rfl

@[simp] theorem truthy_add (a b : Replacements) : (a + b).truthy = a.truthy + b.truthy := rfl

@[simp] theorem names_add (a b : Replacements) : (a + b).names = a.names + b.names := rfl

theorem eq_of_counts {a b : Replacements} (hf : a.fqcn = b.fqcn) (ht : a.truthy = b.truthy)
    (hn : a.names = b.names) : a = b := by
  cases a
  cases b
  simp_all

theorem add_right_comm (a b c : Replacements) : a + b + c = a + c + b :=
  eq_of_counts (Nat.add_right_comm _ _ _) (Nat.add_right_comm _ _ _) (Nat.add_right_comm _ _ _)

theorem add_record (a b : Replacements) (r : Rule) (j k : Nat) :
    (a + b).record r (j + k) = a.record r j + b.record r k := by
  cases r
  · exact eq_of_counts (Nat.add_add_add_comm _ _ _ _) rfl rfl
  · exact eq_of_counts rfl (Nat.add_add_add_comm _ _ _ _) rfl
  · exact eq_of_counts rfl rfl (Nat.add_add_add_comm _ _ _ _)

def total (n : Replacements) : Nat := n.fqcn + n.truthy + n.names

end Replacements

end PlaybookTidy
