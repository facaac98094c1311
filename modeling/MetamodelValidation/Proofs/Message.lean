import Mathlib.Data.List.Basic
import MetamodelValidation.Proofs.Raised

/-! # What a message tells

Names are put into messages as they are, so a name may look like any part of a
message. The fixed text at both ends of a message still tells the codes apart,
and some of what a finding says can be read back from its message.
-/

namespace MetamodelValidation

namespace Finding

/-- The text before the first name of the message, or the number it starts with. -/
def opening : Finding → String
  | typeMismatch .. => "type mismatch: expected "
  | expectedArray .. => "attribute "
  | elementMismatch .. => "type mismatch at position "
  | elementsOmitted _ count _ => toString count
  | unexpectedArray .. => "attribute "
  | unsupportedDefault .. => "attribute "
  | duplicateAttribute .. => "duplicate attribute: "

def closing : Finding → String
  | unexpectedArray .. => ", found an array"
  | unsupportedDefault .. => " cannot have a default value"
  | _ => "'"

theorem exists_message_eq_opening_append (f : Finding) :
    ∃ rest, f.message = f.opening ++ rest := by
  unfold message opening
  cases f <;> exact ⟨_, by simp only [String.append_assoc]; rfl⟩

theorem exists_message_eq_append_closing (f : Finding) :
    ∃ front, f.message = front ++ f.closing := by
  unfold message closing quoted
  cases f <;> exact ⟨_, by simp only [← String.append_assoc]; rfl⟩

/-- The number of omitted elements starts with a digit. -/
theorem exists_head?_opening_elementsOmitted (s : Span) (n : Nat) (a : String) :
    ∃ x, (elementsOmitted s n a).opening.toList.head? = some x ∧ x.isDigit = true := by
  have hn : (elementsOmitted s n a).opening.toList = Nat.toDigits 10 n := by simp [opening]
  obtain ⟨x, others, hdigits⟩ := List.exists_cons_of_ne_nil (Nat.toDigits_ne_nil (n := n) (b := 10))
  refine ⟨x, by rw [hn, hdigits, List.head?_cons], ?_⟩
  exact Nat.isDigit_of_mem_toDigits (by decide) (by decide) (hdigits ▸ List.mem_cons_self)

theorem toList_opening_ne_nil (f : Finding) : f.opening.toList ≠ [] := by
  cases f with
  | elementsOmitted s count expected => simp [opening, Nat.toDigits_ne_nil]
  | _ => simp [opening]

theorem toList_closing_ne_nil (f : Finding) : f.closing.toList ≠ [] := by
  cases f <;> simp [closing]

theorem head?_message (f : Finding) : f.message.toList.head? = f.opening.toList.head? := by
  rcases f.exists_message_eq_opening_append with ⟨rest, h⟩
  rw [h, String.toList_append, List.head?_append_of_ne_nil _ f.toList_opening_ne_nil]

theorem getLast?_message (f : Finding) :
    f.message.toList.getLast? = f.closing.toList.getLast? := by
  rcases f.exists_message_eq_append_closing with ⟨front, h⟩
  rw [h, String.toList_append, List.getLast?_append_of_ne_nil _ f.toList_closing_ne_nil]

theorem getElem?_message {f : Finding} {i : Nat} (hi : i < f.opening.toList.length) :
    f.message.toList[i]? = f.opening.toList[i]? := by
  rcases f.exists_message_eq_opening_append with ⟨rest, h⟩
  rw [h, String.toList_append, List.getElem?_append_left hi]

/-- Reads the code off a message. Its first letter decides, or else the first
letter in which the two sorts of mismatch differ, or the last letter. -/
def codeOfMessage (text : String) : FindingCode :=
  if text.toList.head? = some 't' then
    if text.toList[13]? = some ':' then .typeMismatch else .elementMismatch
  else if text.toList.head? = some 'a' then
    if text.toList.getLast? = some 'y' then .unexpectedArray
    else if text.toList.getLast? = some 'e' then .unsupportedDefault
    else .expectedArray
  else if text.toList.head? = some 'd' then .duplicateAttribute
  else .elementMismatch

/-- The message determines the code: the fixed texts leave no room for a clash,
whatever the names are. -/
theorem codeOfMessage_message (f : Finding) : codeOfMessage f.message = f.code := by
  unfold codeOfMessage
  rw [head?_message, getLast?_message]
  cases f with
  | typeMismatch s expected found =>
    rw [getElem?_message (by simp [opening])]
    simp [opening, code]
  | elementMismatch s position expected found =>
    rw [getElem?_message (by simp [opening])]
    simp [opening, code]
  | elementsOmitted s count expected =>
    rcases exists_head?_opening_elementsOmitted s count expected with ⟨x, head, digit⟩
    have notLetter : x ≠ 't' ∧ x ≠ 'a' ∧ x ≠ 'd' := by
      refine ⟨?_, ?_, ?_⟩ <;> rintro rfl <;> exact absurd digit (by decide)
    simp [head, notLetter, code]
  | _ => simp [opening, closing, code]

theorem code_eq_of_message_eq {f g : Finding} (h : f.message = g.message) : f.code = g.code := by
  rw [← codeOfMessage_message f, ← codeOfMessage_message g, h]

theorem span_message_eq_of_key_eq {file : SourceFile} {f g : Finding}
    (h : (f.toDiagnostic file).key = (g.toDiagnostic file).key) :
    f.span = g.span ∧ f.message = g.message := by
  simpa [Diagnostic.key, toDiagnostic] using h

theorem code_eq_of_key_eq {file : SourceFile} {f g : Finding}
    (h : (f.toDiagnostic file).key = (g.toDiagnostic file).key) : f.code = g.code :=
  code_eq_of_message_eq (span_message_eq_of_key_eq h).2

/-- Within one class the message of a repeated declaration tells its name. -/
theorem attrName_eq_of_message_eq {s t p q : Span} {a b c : String}
    (h : (duplicateAttribute s a c p).message = (duplicateAttribute t b c q).message) :
    a = b := by
  unfold message quoted at h
  simpa only [String.append_left_inj, String.append_right_inj] using h

/-- The digits of the position end before the colon, so they can be read back. -/
theorem position_eq_of_message_eq {s t : Span} {m n : Nat} {a b : String} {k l : ValueKind}
    (h : (elementMismatch s m a k).message = (elementMismatch t n b l).message) : m = n := by
  have digits (n : Nat) (rest : String) :
      (toString n ++ (": expected " ++ rest)).toList.takeWhile Char.isDigit =
        Nat.toDigits 10 n := by
    rw [String.toList_append, Nat.toString_eq_repr, Nat.toList_repr,
      List.takeWhile_append_of_pos fun x => Nat.isDigit_of_mem_toDigits (by decide) (by decide)]
    simp
  unfold message at h
  simp only [String.append_assoc, String.append_right_inj] at h
  have hdigits := congrArg (fun text => text.toList.takeWhile Char.isDigit) h
  simp only [digits] at hdigits
  have hvalue := congrArg (fun ds => Nat.ofDigitChars 10 ds 0) hdigits
  simpa only [Nat.ofDigitChars_ten_toDigits] using hvalue

/-- The number of omitted elements cannot be taken for an element. -/
theorem message_elementMismatch_ne_elementsOmitted (s t : Span) (m n : Nat) (a b : String)
    (k : ValueKind) : (elementMismatch s m a k).message ≠ (elementsOmitted t n b).message := by
  intro h
  rcases exists_head?_opening_elementsOmitted t n b with ⟨x, head, digit⟩
  have heads : (elementMismatch s m a k).opening.toList.head? = some x := by
    rw [← head, ← head?_message, ← head?_message, h]
  have letter : x = 't' := by simpa [opening, eq_comm] using heads
  exact absurd digit (by rw [letter]; decide)

/-- The text has no quotes in it. -/
def Plain (text : String) : Prop := text.toList.count '\'' = 0

theorem plain_label (k : ValueKind) : Plain k.label := by
  cases k <;> rfl

def contrastText (opening expected found : String) : String :=
  opening ++ quoted expected ++ ", found " ++ quoted found

theorem toList_contrastText (opening expected found : String) :
    (contrastText opening expected found).toList =
      ['\''].intercalate
        [opening.toList, expected.toList, ", found ".toList, found.toList, []] := by
  simp [contrastText, quoted, List.intercalate]

theorem count_quote_contrastText (opening expected found : String) :
    (contrastText opening expected found).toList.count '\'' =
      opening.toList.count '\'' + expected.toList.count '\'' + found.toList.count '\'' + 4 := by
  have quote : "'".toList.count '\'' = 1 := rfl
  have between : ", found ".toList.count '\'' = 0 := rfl
  simp only [contrastText, quoted, String.toList_append, List.count_append, quote, between]
  omega

theorem splitOn_contrastText {opening expected found : String} (hopening : Plain opening)
    (hexpected : Plain expected) (hfound : Plain found) :
    (contrastText opening expected found).toList.splitOn '\'' =
      [opening.toList, expected.toList, ", found ".toList, found.toList, []] := by
  rw [toList_contrastText]
  apply List.splitOn_intercalate
  · simp only [Plain, List.count_eq_zero] at hopening hexpected hfound
    simp [hopening, hexpected, hfound]
  · simp

/-- What is quoted can be read back, if no quotes stand in it or before it. -/
theorem contrastText_inj {opening opening' expected expected' found found' : String}
    (hopening : Plain opening) (hopening' : Plain opening') (hexpected : Plain expected)
    (hfound : Plain found)
    (h : contrastText opening expected found = contrastText opening' expected' found') :
    opening = opening' ∧ expected = expected' ∧ found = found' := by
  have chars := congrArg String.toList h
  -- The second text has as many quotes as the first, so there are none in what it quotes.
  have quotes := congrArg (List.count '\'') chars
  rw [count_quote_contrastText, count_quote_contrastText, hopening, hopening', hexpected,
    hfound] at quotes
  have hexpected' : Plain expected' := by
    unfold Plain
    omega
  have hfound' : Plain found' := by
    unfold Plain
    omega
  have parts := congrArg (List.splitOn '\'') chars
  rw [splitOn_contrastText hopening hexpected hfound,
    splitOn_contrastText hopening' hexpected' hfound'] at parts
  simpa [String.toList_inj] using parts

theorem plain_elementOpening (n : Nat) :
    Plain ("type mismatch at position " ++ toString n ++ ": expected ") := by
  have digits : (Nat.toDigits 10 n).count '\'' = 0 := by
    rw [List.count_eq_zero]
    intro hmem
    exact absurd (Nat.isDigit_of_mem_toDigits (by decide) (by decide) hmem) (by decide)
  simp [Plain, digits]

theorem elementOpening_inj {m n : Nat} :
    "type mismatch at position " ++ toString m ++ ": expected " =
      "type mismatch at position " ++ toString n ++ ": expected " ↔ m = n := by
  constructor
  · intro h
    have messages := congrArg (contrastText · "" ValueKind.array.label) h
    exact position_eq_of_message_eq (s := {}) (t := {}) (k := .array) (l := .array) messages
  · rintro rfl
    rfl

end Finding

namespace Suite

/-- Diagnostics of the built-in checks with one message have one code, from
whichever check, class, file and settings they come. -/
theorem message_determines_code {check check' : Check} (hcheck : check ∈ builtinChecks)
    (hcheck' : check' ∈ builtinChecks) {ctx ctx' : Context} {c c' : Class} {d d' : Diagnostic}
    (hd : d ∈ check.raised ctx c) (hd' : d' ∈ check'.raised ctx' c')
    (hmessage : d.message = d'.message) : d.code = d'.code := by
  rcases exists_finding_of_mem_raised hcheck hd with ⟨f, rfl, -⟩
  rcases exists_finding_of_mem_raised hcheck' hd' with ⟨f', rfl, -⟩
  exact congrArg (fun code => some code.text) (Finding.code_eq_of_message_eq hmessage)

def twice (className attrName : String) : Class where
  name := className
  attributes := [{ name := attrName, type := .string }, { name := attrName, type := .string }]

theorem raised_twice (ctx : Context) (className attrName : String) :
    DuplicateAttribute.check.raised ctx (twice className attrName) =
      [(Finding.duplicateAttribute {} attrName className {}).toDiagnostic ctx.file] := by
  simp [DuplicateAttribute.raised_check, DuplicateAttribute.findings,
    DuplicateAttribute.findingsFrom, twice]

/-- Names that contain parts of a message make two different diagnostics share
one message, and still one code. -/
theorem message_determines_code_of_hostile_names :
    ∃ d ∈ DuplicateAttribute.check.raised { model := {} }
        (twice "z" "x' is already declared in 'y"),
      ∃ d' ∈ DuplicateAttribute.check.raised { model := {} }
          (twice "y' is already declared in 'z" "x"),
        d.message = d'.message ∧ d ≠ d' ∧ d.code = d'.code := by
  have hcheck : DuplicateAttribute.check ∈ builtinChecks :=
    List.mem_cons_of_mem _ List.mem_cons_self
  have hd := raised_twice { model := {} } "z" "x' is already declared in 'y" ▸
    List.mem_singleton_self _
  have hd' := raised_twice { model := {} } "y' is already declared in 'z" "x" ▸
    List.mem_singleton_self _
  exact ⟨_, hd, _, hd', rfl, by decide, message_determines_code hcheck hcheck hd hd' rfl⟩

end Suite

end MetamodelValidation
