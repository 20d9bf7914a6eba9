import PlaybookTidy.Command.Reply
import PlaybookTidy.Proofs.Json.Printed
import PlaybookTidy.Proofs.Json.Same

/-!
The printed envelope is one JSON document that says what the result is, and tells results apart up
to the order of members.
-/

namespace PlaybookTidy.Reply

open Json

/-- What an envelope says: the data of a success, or the report of a failure, whose hints are left
out if there are none. -/
def content : Except FailureReport Json → Json
  | .ok data => object [("success", bool true), ("data", data)]
  | .error e =>
    object [("success", bool false), ("error", object (
      [("code", string e.code), ("message", string e.message), ("details", e.details)] ++
      (if e.hints = [] then []
        else [("hints", array (e.hints.map fun h => object [("message", string h)]))]) ++
      (match e.retryable with
        | none => []
        | some b => [("retryable", bool b)])))]

/-- Equal up to the order of members in the data or the details. -/
def SameResult : Except FailureReport Json → Except FailureReport Json → Prop
  | .ok v, .ok w => Same v w
  | .error e, .error f => e.code = f.code ∧ e.message = f.message ∧ Same e.details f.details ∧
      e.hints = f.hints ∧ e.retryable = f.retryable
  | _, _ => False

/-- The data or the details are a JSON value: no object in them has a key twice. -/
def IsValue : Except FailureReport Json → Prop
  | .ok v => Distinct v
  | .error e => Distinct e.details

def ordered : Except FailureReport Json → Except FailureReport Json
  | .ok v => .ok v.canonical
  | .error e => .error { e with details := e.details.canonical }

variable {r r' : Except FailureReport Json}

/-- An envelope says what the result says with its members in order. -/
theorem envelope_eq (r : Except FailureReport Json) : envelope r = content (ordered r) := by
  cases r with
  | ok v => rfl
  | error e =>
    rcases e with ⟨code, message, details, hints, retryable⟩
    by_cases h : hints = [] <;> cases retryable <;>
      simp [envelope, content, ordered, FailureReport.toJson, Json.optional, h]

theorem hintItems_inj {l l' : List String} :
    (l.map fun h => object [("message", string h)]) =
      (l'.map fun h => object [("message", string h)]) ↔ l = l' :=
  List.map_inj_right fun a b hab => by simpa using hab

/-- What an envelope says tells which result it is. -/
theorem content_injective (h : content r = content r') : r = r' := by
  cases r with
  | ok v =>
    cases r' with
    | ok v' => simpa [content] using h
    | error e' => simp [content] at h
  | error e =>
    cases r' with
    | ok v' => simp [content] at h
    | error e' =>
      rcases e with ⟨code, message, details, hints, retryable⟩
      rcases e' with ⟨code', message', details', hints', retryable'⟩
      -- hints and the flag are members or are missing, which the number of members tells
      by_cases hh : hints = [] <;> by_cases hh' : hints' = [] <;>
        cases retryable <;> cases retryable' <;>
        simp_all [content, hintItems_inj]

/-- Putting members in order makes those results equal that differ in that order only. -/
theorem ordered_eq_iff (hr : IsValue r) (hr' : IsValue r') :
    ordered r = ordered r' ↔ SameResult r r' := by
  cases r with
  | ok v =>
    cases r' with
    | ok v' => simpa [ordered, SameResult] using canonical_eq_iff hr hr'
    | error e' => simp [ordered, SameResult]
  | error e =>
    cases r' with
    | ok v' => simp [ordered, SameResult]
    | error e' =>
      have hdetails := canonical_eq_iff (v := e.details) (w := e'.details) hr hr'
      simp [ordered, SameResult, hdetails]

theorem sameResult_ordered (hr : IsValue r) : SameResult (ordered r) r := by
  cases r with
  | ok v => exact (same_canonical hr).symm
  | error e => exact ⟨rfl, rfl, (same_canonical hr).symm, rfl, rfl⟩

theorem exists_members_content (r : Except FailureReport Json) :
    ∃ m ms, content r = object (m :: ms) := by
  cases r with
  | ok v => exact ⟨_, _, rfl⟩
  | error e => exact ⟨_, _, rfl⟩

theorem toList_printEnvelope (r : Except FailureReport Json) :
    (printEnvelope r).toList = printAt 0 (content (ordered r)) ++ ['\n'] := by
  rw [printEnvelope, envelope_eq, Json.print, String.toList_append, String.toList_ofList]
  rfl

/-- Printed envelopes are equal if the results are, but for the order of members. -/
theorem printEnvelope_eq_iff : printEnvelope r = printEnvelope r' ↔ ordered r = ordered r' := by
  constructor
  · intro h
    -- one text has one value, and the value shows what is in the envelope
    have htext := congrArg String.toList h
    rw [toList_printEnvelope, toList_printEnvelope] at htext
    have hprint : (content (ordered r)).print = (content (ordered r')).print :=
      congrArg String.ofList (List.append_cancel_right htext)
    have hd := denotes_print (content (ordered r))
    rw [hprint] at hd
    exact content_injective (document_injective (hd.unique (denotes_print _)))
  · intro h
    rw [printEnvelope, printEnvelope, envelope_eq, envelope_eq, h]

/-- The printed text is a document and a line end. It reads as the result, up to the order of
members, and results print alike if and only if they differ in nothing else. -/
theorem envelope_is_faithful (hr : IsValue r) (hr' : IsValue r') :
    (∃ doc r₀, (printEnvelope r).toList = doc ++ ['\n'] ∧ doc.getLast? = some '\x7d' ∧
      IsPlain doc ∧ SameResult r₀ r ∧ ∀ w, Denotes doc w ↔ w = (content r₀).document) ∧
    (printEnvelope r = printEnvelope r' ↔ SameResult r r') := by
  refine ⟨⟨_, ordered r, toList_printEnvelope r, ?_, isPlain_printAt _ 0, sameResult_ordered hr,
    fun w => ?_⟩, printEnvelope_eq_iff.trans (ordered_eq_iff hr hr')⟩
  · obtain ⟨m, ms, h⟩ := exists_members_content (ordered r)
    rw [h, printAt, ← List.cons_append, List.getLast?_concat]
  · have hd := denotes_print (content (ordered r))
    rw [Json.print, String.toList_ofList] at hd
    refine ⟨fun hw => hw.unique hd, ?_⟩
    rintro rfl
    exact hd

/-- Details in another order, with a control character in a key, print alike. -/
theorem envelope_is_faithful_reordered :
    let items := array [number (-3), string "\\"]
    let e : FailureReport :=
      ⟨"internal.io_error", "a\n\"b\"", object [("\x01", null), ("a", items)], ["h"], some true⟩
    let e' : FailureReport := { e with details := object [("a", items), ("\x01", null)] }
    IsValue (.error e) ∧ IsValue (.error e') ∧
      printEnvelope (.error e) = printEnvelope (.error e') := by
  intro items e e'
  have hitems : Distinct items :=
    .array (by simpa using ⟨.number _, .string _⟩)
  have he : IsValue (.error e) := .object (by decide) (by simpa using ⟨.null, hitems⟩)
  have he' : IsValue (.error e') := .object (by decide) (by simpa using ⟨hitems, .null⟩)
  exact ⟨he, he', (envelope_is_faithful he he').2.2
    ⟨rfl, rfl, .permuted (.swap _ _ _), rfl, rfl⟩⟩

end PlaybookTidy.Reply
