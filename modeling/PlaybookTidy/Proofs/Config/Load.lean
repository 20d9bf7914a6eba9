import PlaybookTidy.Config.Load
import PlaybookTidy.Proofs.Config.Reading
import PlaybookTidy.Proofs.Json.Printed
import PlaybookTidy.Proofs.Run.Visit
import PlaybookTidy.Proofs.Tree.Shrink
import PlaybookTidy.Report

/-!
Loading a configuration gives what the file says, however it is spelled, and settings that were
written to a file come back as they are.
-/

namespace PlaybookTidy.Config

open Json

variable {t t' : Tree} {root : Path} {asked : Option Path} {text text' : String}
  {v w : Document} {d : Defaults}

/-- A file that spells settings gives them, unless they fail their check. -/
theorem load_of_isConfig (htext : t.readText (filePath root asked) = .ok text)
    (hv : Denotes text.toList v) (hd : IsConfig v d) :
    load t root asked = d.check.map fun _ => ⟨d, some (filePath root asked)⟩ := by
  obtain ⟨l, hl, hs⟩ := Tree.readText_eq_ok_iff.1 htext
  have hfile : t.isFile (filePath root asked) := Tree.isFile_iff.2 ⟨l, _, hl, hs⟩
  simp only [load, if_pos hfile, loadFile, Tree.read, htext, Except.mapError, bind, Except.bind,
    parse_eq hv hd]
  cases d.check <;> rfl

/-- Only what a configuration says counts, not how it is spelled: where white space stands, in which
order members come, which unknown members there are, and which form rules and records have. -/
theorem load_of_respelled (htext : t.readText (filePath root asked) = .ok text)
    (hv : Denotes text.toList v) (hd : IsConfig v d) (h : ConfigRespelled v w)
    (htext' : t'.readText (filePath root asked) = .ok text') (hw : Denotes text'.toList w) :
    (load t root asked = d.check.map fun _ => ⟨d, some (filePath root asked)⟩) ∧
      load t' root asked = load t root asked := by
  have hload := load_of_isConfig htext hv hd
  have hload' := load_of_isConfig htext' hw ((h.isConfig_iff d).1 hd)
  exact ⟨hload, hload'.trans hload.symm⟩

/-- An object with an unknown member, and an array in which the members of the settings are turned
round and a rule is an object. -/
theorem load_of_respelled_in_order :
    let d : Defaults := { patterns := ["a"], rules := [.fqcn] }
    let plain := Json.object [("", .array [.null]), ("defaults",
      .object [("patterns", .strings ["a"]), ("rules", .strings ["fqcn"])])]
    let other := Json.array [.object [("rules", .array [.object [("fqcn", .null)]]),
      ("patterns", .strings ["a"])]]
    let p : Path := ⟨"c.json".toList⟩
    let t : Tree := ⟨[], [(["c.json".toList], Tree.textFile plain.print)]⟩
    let t' : Tree := ⟨[], [(["c.json".toList], Tree.textFile other.print)]⟩
    load t ⟨Path.dot⟩ (some p) = .ok ⟨d, some p⟩ ∧
      load t' ⟨Path.dot⟩ (some p) = load t ⟨Path.dot⟩ (some p) := by
  intro d plain other p t t'
  have htext : t.readText p = .ok plain.print :=
    Tree.readText_eq_ok_iff.2 ⟨["c.json".toList], by decide, rfl⟩
  have htext' : t'.readText p = .ok other.print :=
    Tree.readText_eq_ok_iff.2 ⟨["c.json".toList], by decide, rfl⟩
  have hpatterns : IsList IsText (.array [.string (some "a")]) ["a"] := ⟨_, rfl, .cons rfl .nil⟩
  have hrules : IsList IsRule (.array [.string (some "fqcn")]) [.fqcn] :=
    ⟨_, rfl, .cons (Or.inl rfl) .nil⟩
  have hd : IsConfig plain.document d :=
    ⟨by simp [plain, document, IsRecord], Or.inr ⟨_, rfl, by simp [document, IsRecord],
      Or.inr ⟨_, rfl, hpatterns⟩, Or.inl ⟨rfl, rfl⟩, Or.inr ⟨_, rfl, hrules⟩, Or.inl ⟨rfl, rfl⟩⟩⟩
  -- The members change places, then the rule becomes an object.
  have hsettings : SettingsRespelled
      (.object [(some "patterns", .array [.string (some "a")]),
        (some "rules", .array [.string (some "fqcn")])])
      (.object [(some "rules", .array [.object [(some "fqcn", .null)]]),
        (some "patterns", .array [.string (some "a")])]) :=
    .trans (.permuted (.swap _ _ _)) (.field ⟨rfl, .asObject "fqcn" [] []⟩ [] _)
  -- The settings come first in a configuration, so an array may hold nothing but them.
  have horder (v : Document) : ConfigRespelled (.object [(some "defaults", v)]) (.array [v]) :=
    have hlength : [v].length ≤ ["defaults"].length := Nat.le_refl 1
    Respelled.inOrder hlength
  have h : ConfigRespelled plain.document other.document :=
    .trans (.symm (.unknown (by decide) _ [] _))
      (.trans (.field hsettings [] []) (horder _))
  exact load_of_respelled htext (denotes_print plain) hd h htext' (denotes_print other)

section RoundTrip

theorem trim_of_isBlankText {p : String} (h : Text.isBlankText p) : Text.trim p = "" := by
  have hnil : p.toList.dropWhile Text.isBlank = [] :=
    List.dropWhile_eq_nil_iff.2 (List.all_eq_true.1 h)
  rw [Text.trim, hnil]
  rfl

theorem check_eq_ok (hne : d.patterns ≠ []) (hpatterns : ∀ p ∈ d.patterns, Text.trim p ≠ "") :
    d.check = .ok () := by
  have hfind : d.patterns.find? Text.isBlankText = none :=
    List.find?_eq_none.2 fun p hp hblank => hpatterns p hp (trim_of_isBlankText hblank)
  rw [Defaults.check, if_neg hne, hfind]

theorem isList_map {α : Type} {P : Document → α → Prop} {f : α → Document} (h : ∀ x, P (f x) x)
    (xs : List α) : IsList P (.array (xs.map f)) xs :=
  ⟨xs.map f, rfl, List.forall₂_map_left_iff.2 (List.forall₂_same.2 fun x _ => h x)⟩

/-- The entries in their order spell the overrides that hold them. -/
theorem isOverrides_entries (o : Overrides) :
    IsOverrides (.object (o.entries.map fun e => (some e.1, .string (some e.2)))) o := by
  refine ⟨o.entries, rfl, fun short => ?_⟩
  have hlookup := lookup_foldl_insertKey short o.entries []
  have hsort : o.entries.foldl (fun m e => insertKey e.1 e.2 m) [] = o.entries :=
    sortKeys_of_increasing o.increasing
  rw [hsort] at hlookup
  exact hlookup.trans (Option.or_none ..)

theorem document_toJson (d : Defaults) : (toJson d).document =
    .object [(some "defaults", .object [
      (some "patterns", .array (d.patterns.map fun s => .string (some s))),
      (some "exclude", .array (d.exclude.map fun s => .string (some s))),
      (some "rules", .array (d.rules.map fun r => .string (some r.id))),
      (some "fqcn", .object (d.fqcn.entries.map fun e => (some e.1, .string (some e.2))))])] := by
  simp [toJson, Defaults.toJson, Json.strings, document, Rule.toJson, Function.comp_def]

/-- What is written for settings is a configuration with these settings. -/
theorem isConfig_toJson (d : Defaults) : IsConfig (toJson d).document d := by
  have htexts (l : List String) :
      IsList IsText (.array (l.map fun s => .string (some s))) l := isList_map (P := IsText) (fun _ => rfl) l
  rw [document_toJson]
  refine ⟨by simp [IsRecord], Or.inr ⟨_, rfl, ?_⟩⟩
  constructor
  case record => simp [IsRecord]
  case patterns => exact Or.inr ⟨_, rfl, htexts d.patterns⟩
  case exclude => exact Or.inr ⟨_, rfl, htexts d.exclude⟩
  case rules => exact Or.inr ⟨_, rfl, isList_map (fun _ => Or.inl rfl) d.rules⟩
  case fqcn => exact Or.inr ⟨_, rfl, isOverrides_entries d.fqcn⟩

/-- Settings that a check lets pass are loaded from a file as they were written to it. -/
theorem load_of_serialized (hne : d.patterns ≠ []) (hpatterns : ∀ p ∈ d.patterns, Text.trim p ≠ "")
    (htext : t.readText (filePath root asked) = .ok text)
    (hv : Denotes text.toList (toJson d).document) :
    load t root asked = .ok ⟨d, some (filePath root asked)⟩ := by
  rw [load_of_isConfig htext hv (isConfig_toJson d), check_eq_ok hne hpatterns]
  rfl

/-- Characters that are escaped, rules that come twice, and a replacement. -/
theorem load_of_serialized_escaped :
    let d : Defaults :=
      ⟨["\"\\\n\x01", "é"], [" "], [.names, .names], Overrides.empty.insert "" "\t"⟩
    let t : Tree := ⟨[], [(["c.json".toList], Tree.textFile (toJson d).print)]⟩
    load t ⟨Path.dot⟩ (some ⟨"c.json".toList⟩) = .ok ⟨d, some ⟨"c.json".toList⟩⟩ := by
  intro d t
  have hpatterns : ∀ p ∈ d.patterns, Text.trim p ≠ "" := by decide
  have htext : t.readText ⟨"c.json".toList⟩ = .ok (toJson d).print :=
    Tree.readText_eq_ok_iff.2 ⟨["c.json".toList], by decide, rfl⟩
  exact load_of_serialized (by decide) hpatterns htext (denotes_print _)

end RoundTrip

end PlaybookTidy.Config
