import RuleLens.Diagnostic.Response
import RuleLens.Proofs.Document
import RuleLens.Proofs.Marker

/-!
# What a line of compiler output says

The leftmost number in brackets in the first field of a line decides which line of the document a
diagnostic is about, and whether there is one.  Messages in the format of the compiler are read back
as they were written, except that a number in brackets in the name of the file comes first.
-/

namespace RuleLens.Diagnostic

open Text (separator FieldsOf Denotes)

variable {doc : Document} {digits head line : List Char} {rest : List (List Char)} {n : Nat}

/-! ## 1. Which line is meant -/

/-- The digits are ASCII digits and denote a line of the document, counted from 1. -/
def NamesLine (doc : Document) (digits : List Char) (n : Nat) : Prop :=
  Denotes digits n ∧ 1 ≤ n ∧ n ≤ doc.lineCount

theorem lineIndex?_eq_some_iff {i : Nat} :
    lineIndex? digits = some i ↔ digits ≠ [] ∧ Denotes digits (i + 1) ∧ i + 1 ≤ Text.max32 := by
  rw [← and_assoc, ← Text.ofDigits?_eq_some_iff]
  unfold lineIndex?
  cases hvalue : Text.ofDigits? digits with
  | none => simp
  | some value =>
    cases value with
    | zero => simp
    | succ k =>
      simp only [Option.bind_eq_bind, Option.bind_some, Option.ite_none_right_eq_some,
        Option.some.injEq, Nat.succ_inj]
      constructor
      · rintro ⟨hk, rfl⟩
        exact ⟨rfl, hk⟩
      · rintro ⟨rfl, hk⟩
        exact ⟨hk, rfl⟩

/-- A diagnostic about line `n` of the document, counted from 1, made of the fields of a line of
compiler output. -/
structure FromFields (doc : Document) (fields : List (List Char)) (n : Nat) (d : Diagnostic) :
    Prop where
  start_line : d.range.start.line + 1 = n
  stop_line : d.range.stop.line + 1 = n
  start_column : ∃ text, doc.line? d.range.start.line = some text ∧
    Document.IsIndent text d.range.start.character
  stop_column : d.range.stop.character = Text.max32
  error_iff : d.severity = .error ↔ fields[1]? = some "error".toList
  message : fields.getLast? = some d.message
  shown : d.toJson = .obj [("severity", .str d.severity.name), ("message", .ofChars d.message),
    ("line", .nat n), ("column", .nat (d.range.start.character + 1)), ("end_line", .nat n),
    ("source", .str "yarac")]

theorem severity_ofField_eq_error_iff {field : Option (List Char)} :
    Severity.ofField field = .error ↔ field = some "error".toList := by
  unfold Severity.ofField
  split
  · rename_i h
    simp [h]
  · rename_i h
    simpa using h

theorem ofLine_of_namesLine (hfields : FieldsOf (Text.trim line) (head :: rest))
    (hmarker : FirstMarker head digits) (hlines : doc.lineCount ≤ Text.max32)
    (hn : NamesLine doc digits n) :
    ∃ d, ofLine doc line = .ok (some d) ∧ FromFields doc (head :: rest) n d := by
  rcases hn with ⟨hdenotes, hpos, hle⟩
  obtain ⟨i, rfl⟩ : ∃ i, n = i + 1 := ⟨n - 1, by omega⟩
  have hne : digits ≠ [] := by
    rcases hmarker with ⟨before, hat, -⟩
    exact hat.ne_nil
  have hindex : lineIndex? digits = some i :=
    lineIndex?_eq_some_iff.mpr ⟨hne, hdenotes, by omega⟩
  obtain ⟨text, htext⟩ : ∃ text, doc.line? i = some text := by
    unfold Document.lineCount at hle
    exact ⟨_, List.getElem?_eq_getElem (by omega)⟩
  refine ⟨⟨Range.restOfLine i (Document.indent text), .ofField (head :: rest)[1]?,
    (head :: rest).getLastD []⟩, ?_, ?_⟩
  · simp only [ofLine, Text.fieldsOf_iff.mp hfields, List.headD_cons,
      marker?_eq_some_iff.mpr hmarker, hindex, Document.indent?, htext, Option.bind_eq_bind,
      Option.bind_some, Option.map_some]
  · refine ⟨rfl, rfl, ⟨text, htext, Document.isIndent_indent text⟩, rfl,
      severity_ofField_eq_error_iff, ?_, rfl⟩
    rw [List.getLastD_eq_getLast?]
    simp [List.getLast?_cons]

theorem ofLine_of_not_namesLine (hfields : FieldsOf (Text.trim line) (head :: rest))
    (hmarker : FirstMarker head digits) (hn : ¬ ∃ n, NamesLine doc digits n) :
    ofLine doc line = .ok none := by
  simp only [ofLine, Text.fieldsOf_iff.mp hfields, List.headD_cons,
    marker?_eq_some_iff.mpr hmarker]
  cases hindex : lineIndex? digits with
  | none => rfl
  | some i =>
    rcases lineIndex?_eq_some_iff.mp hindex with ⟨-, hdenotes, -⟩
    -- the digits denote a number, so it is the number of no line
    have hline : doc.line? i = none := by
      unfold Document.line?
      rw [List.getElem?_eq_none_iff]
      refine Nat.le_of_not_lt fun hlt => hn ⟨i + 1, hdenotes, by omega, hlt⟩
    simp [Document.indent?, hline]

theorem ofLine_of_not_hasMarker (hfields : FieldsOf (Text.trim line) (head :: rest))
    (hmarker : ¬ HasMarker head) :
    ofLine doc line =
      if optionComplaint.isPrefixOf line then .error (.badFlag line) else .ok none := by
  simp only [ofLine, Text.fieldsOf_iff.mp hfields, List.headD_cons,
    marker?_eq_none_iff.mpr hmarker]

theorem NamesLine.unique {m : Nat} (h : NamesLine doc digits n) (h' : NamesLine doc digits m) :
    n = m := by
  rw [← h.1.2, ← h'.1.2]

theorem fromFields_of_ofLine {d : Diagnostic}
    (hfields : FieldsOf (Text.trim line) (head :: rest)) (hmarker : FirstMarker head digits)
    (hlines : doc.lineCount ≤ Text.max32) (hd : ofLine doc line = .ok (some d)) :
    ∃ n, NamesLine doc digits n ∧ FromFields doc (head :: rest) n d := by
  by_cases hn : ∃ n, NamesLine doc digits n
  · rcases hn with ⟨n, hn⟩
    rcases ofLine_of_namesLine hfields hmarker hlines hn with ⟨found, hfound, hfrom⟩
    rw [hfound] at hd
    cases hd
    exact ⟨n, hn, hfrom⟩
  · rw [ofLine_of_not_namesLine hfields hmarker hn] at hd
    cases hd

/-! ## 2. Reading a line -/

/-- How every line of compiler output is read.  Without a number in brackets in its first field it
is a complaint about an option or nothing.  Otherwise the leftmost such number decides: there is a
diagnostic exactly if it is the number of a line, the diagnostic is about that line, and the numbers
shown for it have 32 bits. -/
theorem ofLine_by_first_marker (hlines : doc.lineCount < Text.max32)
    (hcolumns : ∀ text ∈ doc.lines, text.length < Text.max32) (line : List Char) :
    ∃ head rest, FieldsOf (Text.trim line) (head :: rest) ∧
      (¬ HasMarker head → ofLine doc line =
        if "unknown option".toList.isPrefixOf line then .error (.badFlag line) else .ok none) ∧
      (HasMarker head → ∃ digits, FirstMarker head digits ∧
        ((∃ d, ofLine doc line = .ok (some d)) ↔ ∃ n, NamesLine doc digits n) ∧
        ((¬ ∃ n, NamesLine doc digits n) → ofLine doc line = .ok none) ∧
        ∀ d, ofLine doc line = .ok (some d) →
          ∃ n, NamesLine doc digits n ∧ FromFields doc (head :: rest) n d ∧
            d.range.start.character + 1 ≤ Text.max32) := by
  have hfields := Text.fieldsOf_fields (Text.trim line)
  obtain ⟨head, rest, heq⟩ := List.exists_cons_of_ne_nil hfields.ne_nil
  rw [heq] at hfields
  refine ⟨head, rest, hfields, fun hnone => ofLine_of_not_hasMarker hfields hnone, fun hsome => ?_⟩
  rcases hsome.exists_firstMarker with ⟨digits, hmarker⟩
  have hmax : doc.lineCount ≤ Text.max32 := Nat.le_of_lt hlines
  refine ⟨digits, hmarker, ⟨?_, ?_⟩, ofLine_of_not_namesLine hfields hmarker, ?_⟩
  · rintro ⟨d, hd⟩
    rcases fromFields_of_ofLine hfields hmarker hmax hd with ⟨n, hn, -⟩
    exact ⟨n, hn⟩
  · rintro ⟨n, hn⟩
    rcases ofLine_of_namesLine hfields hmarker hmax hn with ⟨d, hd, -⟩
    exact ⟨d, hd⟩
  · intro d hd
    rcases fromFields_of_ofLine hfields hmarker hmax hd with ⟨n, hn, hfrom⟩
    refine ⟨n, hn, hfrom, ?_⟩
    -- the column is at most the length of a line, which is below the largest number
    rcases hfrom.start_column with ⟨text, htext, hindent⟩
    have hlength := hcolumns text (List.mem_of_getElem? htext)
    have hle := hindent.le_length
    omega

/-- In a line with blanks around it, of which the second number in brackets is not read. -/
theorem ofLine_by_first_marker_indented :
    let doc := Document.ofString "rule r\n   \x7b"
    let line := " a.yara(002)(1): note: last: field ".toList
    let fields := ["a.yara(002)(1)".toList, "note".toList, "last".toList, "field".toList]
    doc.lineCount < Text.max32 ∧ (∀ text ∈ doc.lines, text.length < Text.max32) ∧
      FieldsOf (Text.trim line) fields ∧
      ∃ d, ofLine doc line = .ok (some d) ∧ FromFields doc fields 2 d := by
  intro doc line fields
  have hlines : doc.lineCount < Text.max32 := by decide
  have hcolumns : ∀ text ∈ doc.lines, text.length < Text.max32 := by decide
  have hfields : FieldsOf (Text.trim line) fields := Text.fieldsOf_iff.mpr rfl
  rcases ofLine_by_first_marker hlines hcolumns line with ⟨head, rest, hhead, -, hmarked⟩
  have heq : fields = head :: rest :=
    (Text.fieldsOf_iff.mp hfields).symm.trans (Text.fieldsOf_iff.mp hhead)
  have hfirst : FirstMarker head "002".toList := by
    rw [← (List.cons.inj heq).1]
    exact marker?_eq_some_iff.mp rfl
  have htwo : NamesLine doc "002".toList 2 :=
    ⟨(Text.ofDigits?_eq_some_iff.mp rfl).2, by decide, by decide⟩
  rcases hmarked hfirst.hasMarker with ⟨digits, hdigits, hiff, -, hread⟩
  have hdigits := hdigits.unique hfirst
  subst hdigits
  rcases hiff.mpr ⟨2, htwo⟩ with ⟨d, hd⟩
  rcases hread d hd with ⟨n, hn, hfrom, -⟩
  rw [← heq, hn.unique htwo] at hfrom
  exact ⟨hlines, hcolumns, hfields, d, hd, hfrom⟩

/-! ## 3. Reading what the compiler writes -/

/-- A message as the compiler writes it. -/
def written (path : List Char) (n : Nat) (severity : Severity) (message : List Char) :
    List Char :=
  path ++ '(' :: (Text.decimal n ++ [')'] ++ separator ++ severity.name.toList ++ separator ++
    message)

variable {path message : List Char} {severity : Severity}

/-- In front of the bracketed number of a message, only the path can hold another. -/
theorem firstMarker_written :
    FirstMarker (Text.trimStart path ++ '(' :: (Text.decimal n ++ [')'])) digits ↔
      FirstMarker path digits ∨ ¬ HasMarker path ∧ digits = Text.decimal n := by
  rw [← marker?_eq_some_iff, marker?_append, marker?_trimStart,
    marker?_of_markerAt (markerAt_decimal n), ← marker?_eq_some_iff, ← marker?_eq_none_iff]
  cases marker? path with
  | none => simp [eq_comm]
  | some found => simp

theorem fieldsOf_written (n : Nat) (severity : Severity) (hpath : ¬ separator <:+: path)
    (hmessage : ¬ separator <:+: message) {c : Char} (hlast : message.getLast? = some c)
    (hc : Text.isBlank c = false) :
    FieldsOf (Text.trim (written path n severity message))
      [Text.trimStart path ++ '(' :: (Text.decimal n ++ [')']), severity.name.toList, message] := by
  have hspace : ' ' ∉ '(' :: (Text.decimal n ++ [')']) := by
    intro h
    simp only [List.mem_cons, List.mem_append, List.not_mem_nil, or_false] at h
    rcases h with h | h | h
    · exact absurd h (by decide)
    · exact absurd ((Text.denotes_decimal n).1 _ h) (by decide)
    · exact absurd h (by decide)
  refine ⟨by simp, ?_, ?_⟩
  · -- the message ends without a blank, so only the start of the path is trimmed
    have hopen : Text.isBlank '(' = false := by decide
    unfold Text.trim written
    rw [Text.trimStart_append_cons hopen, Text.trimEnd_of_getLast? (c := c) _ hc]
    · simp
    · simp [List.getLast?_append, List.getLast?_cons, hlast]
  · intro field hfield
    simp only [List.mem_cons, List.not_mem_nil, or_false] at hfield
    rcases hfield with rfl | rfl | rfl
    · exact Text.not_separator_infix_append (Text.not_infix_trimStart hpath) hspace
    · exact Text.not_separator_infix_of_not_mem (by cases severity <;> decide)
    · exact hmessage

/-- The line is read as a diagnostic about line `n`, counted from 1, with this severity and this
message. -/
def ReadsAs (doc : Document) (line : List Char) (n : Nat) (severity : Severity)
    (message : List Char) : Prop :=
  ∃ d, ofLine doc line = .ok (some d) ∧ d.range.start.line + 1 = n ∧ d.range.stop.line + 1 = n ∧
    d.severity = severity ∧ d.message = message

theorem FromFields.severity_eq {d : Diagnostic}
    (h : FromFields doc [head, severity.name.toList, message] n d) : d.severity = severity := by
  have hiff := h.error_iff
  cases severity with
  | error => exact hiff.mpr rfl
  | warning =>
    cases hd : d.severity with
    | warning => rfl
    | error =>
      have hname : some Severity.warning.name.toList = some "error".toList := hiff.mp hd
      exact absurd hname (by decide)

theorem FromFields.readsAs {d : Diagnostic}
    (h : FromFields doc [head, severity.name.toList, message] n d)
    (hd : ofLine doc line = .ok (some d)) : ReadsAs doc line n severity message :=
  ⟨d, hd, h.start_line, h.stop_line, h.severity_eq, (Option.some.inj h.message).symm⟩

/-- A message that the compiler writes about line `n` is read as that, unless the path holds a
number in brackets: then it is read as a message about the line of that number, or dropped if there
is no such line. -/
theorem ofLine_written_iff (hlines : doc.lineCount ≤ Text.max32) (hpath : ¬ separator <:+: path)
    (hpos : 1 ≤ n) (hn : n ≤ doc.lineCount) (hmessage : ¬ separator <:+: message)
    (hend : ∃ c, message.getLast? = some c ∧ Text.isBlank c = false) :
    (ReadsAs doc (written path n severity message) n severity message ↔
      ∀ digits, FirstMarker path digits → Denotes digits n) ∧
    (∀ digits m, FirstMarker path digits → NamesLine doc digits m →
      ReadsAs doc (written path n severity message) m severity message) ∧
    ∀ digits, FirstMarker path digits → (¬ ∃ m, NamesLine doc digits m) →
      ofLine doc (written path n severity message) = .ok none := by
  rcases hend with ⟨c, hlast, hc⟩
  have hfields := fieldsOf_written n severity hpath hmessage hlast hc
  have hreads : ∀ digits m,
      FirstMarker path digits ∨ ¬ HasMarker path ∧ digits = Text.decimal n →
      NamesLine doc digits m →
      ReadsAs doc (written path n severity message) m severity message := by
    intro digits m hmarker hm
    rcases ofLine_of_namesLine hfields (firstMarker_written.mpr hmarker) hlines hm with
      ⟨d, hd, hfrom⟩
    exact hfrom.readsAs hd
  refine ⟨⟨?_, ?_⟩, fun digits m hmarker => hreads digits m (.inl hmarker), fun digits hmarker =>
    ofLine_of_not_namesLine hfields (firstMarker_written.mpr (.inl hmarker))⟩
  · rintro ⟨d, hd, hline, -⟩ digits hmarker
    rcases fromFields_of_ofLine hfields (firstMarker_written.mpr (.inl hmarker)) hlines hd with
      ⟨m, hm, hfrom⟩
    -- the message is about one line only, whichever number it was found by
    have heq : m = n := by rw [← hfrom.start_line, hline]
    exact heq ▸ hm.1
  · intro h
    rcases marker?_cases path with ⟨digits, hfirst, -⟩ | ⟨hnone, -⟩
    · exact hreads digits n (.inl hfirst) ⟨h digits hfirst, hpos, hn⟩
    · exact hreads _ n (.inr ⟨hnone, rfl⟩) ⟨Text.denotes_decimal n, hpos, hn⟩

/-- A message about line 1 of a file with a number in its name is read as one about line 2. -/
theorem ofLine_written_numbered_path :
    let doc := Document.ofString "rule a\nrule b"
    let line := written "a(2).yara".toList 1 .error "x".toList
    line = "a(2).yara(1): error: x".toList ∧
      ¬ ReadsAs doc line 1 .error "x".toList ∧ ReadsAs doc line 2 .error "x".toList := by
  intro doc line
  have hpath : ¬ separator <:+: "a(2).yara".toList :=
    Text.not_separator_infix_of_not_mem (by decide)
  have hmessage : ¬ separator <:+: "x".toList := Text.not_separator_infix_of_not_mem (by decide)
  have h := @ofLine_written_iff doc 1 "a(2).yara".toList "x".toList .error (by decide) hpath
    (by decide) (by decide) hmessage ⟨'x', rfl, rfl⟩
  have hmarker : FirstMarker "a(2).yara".toList ['2'] := marker?_eq_some_iff.mp rfl
  have htwo : NamesLine doc ['2'] 2 :=
    ⟨(Text.ofDigits?_eq_some_iff.mp rfl).2, by decide, by decide⟩
  refine ⟨by decide, fun hone => ?_, h.2.1 ['2'] 2 hmarker htwo⟩
  have hdenotes := h.1.mp hone ['2'] hmarker
  exact absurd hdenotes.2 (by decide)

end RuleLens.Diagnostic
