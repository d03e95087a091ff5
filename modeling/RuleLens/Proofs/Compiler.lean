import RuleLens.Compiler.Batch
import RuleLens.Proofs.Failing
import RuleLens.Proofs.Text

/-!
# What a run of the compiler comes to

A report holds what the lines of the error stream were read as, in their order, unless a line
refuses an option: the first such line is the result, whatever stands in front of it and however the
run ends.  The answer for users counts what it prints.
-/

namespace RuleLens

variable {doc : Document} {text : List Char}

/-! ## 1. The lines of a stream -/

namespace Compiler

variable {bytes : List UInt8} {lines : List (List UInt8)}

/-- The lines of a byte stream: a line feed ends each of them, and what stands behind the last line
feed is a line as well unless it is empty. -/
def LinesOf (bytes : List UInt8) (lines : List (List UInt8)) : Prop :=
  ∃ ended last, (∀ line ∈ ended, 0x0a ∉ line) ∧ 0x0a ∉ last ∧
    bytes = ended.flatMap (· ++ [0x0a]) ++ last ∧
    lines = if last = [] then ended else ended ++ [last]

theorem linesOf_iff : LinesOf bytes lines ↔ streamLines bytes = lines := by
  unfold streamLines
  apply Iff.intro
  · rintro ⟨ended, last, hended, hlast, rfl, rfl⟩
    rw [Text.splitOn_flatMap hended hlast]
    simp
  · rintro rfl
    have hne : bytes.splitOn 0x0a ≠ [] := List.splitOn_ne_nil 0x0a bytes
    have hpieces := List.dropLast_concat_getLast hne
    refine ⟨(bytes.splitOn 0x0a).dropLast, (bytes.splitOn 0x0a).getLast hne, ?_, ?_, ?_, ?_⟩
    · intro line hline
      exact Text.not_mem_of_mem_splitOn ((List.dropLast_prefix _).subset hline)
    · exact Text.not_mem_of_mem_splitOn (List.getLast_mem hne)
    · rw [← Text.intercalate_concat, hpieces, List.intercalate_splitOn]
    · simp only [hpieces, List.getLastD_eq_getLast?, List.getLast?_eq_some_getLast hne,
        Option.getD_some]

end Compiler

/-! ## 2. The lines of a run -/

namespace Diagnostic

/-- Whether a line is read as the refusal of an option. -/
def isRefusal (doc : Document) (text : List Char) : Bool :=
  match ofLine doc text with
  | .error (.badFlag _) => true
  | _ => false

/-- The diagnostic that a line is read as, if it is read as one. -/
def reading? (doc : Document) (text : List Char) : Option Diagnostic :=
  match ofLine doc text with
  | .ok found => found
  | .error _ => none

/-- The only error of a line is that it refuses an option, in its own words. -/
theorem ofLine_cases (doc : Document) (text : List Char) :
    ofLine doc text = .error (.badFlag text) ∨ ∃ found, ofLine doc text = .ok found := by
  simp only [ofLine]
  split
  · split
    · exact .inl rfl
    · exact .inr ⟨none, rfl⟩
  · exact .inr ⟨_, rfl⟩

theorem ofLine_of_isRefusal (h : isRefusal doc text = true) :
    ofLine doc text = .error (.badFlag text) := by
  rcases ofLine_cases doc text with hrefusal | ⟨found, hfound⟩
  · exact hrefusal
  · rw [isRefusal, hfound] at h
    cases h

theorem ofLine_of_not_isRefusal (h : isRefusal doc text = false) :
    ofLine doc text = .ok (reading? doc text) := by
  rcases ofLine_cases doc text with hrefusal | ⟨found, hfound⟩
  · rw [isRefusal, hrefusal] at h
    cases h
  · rw [reading?, hfound]

end Diagnostic

namespace Compiler

variable {c : Compiler} {w : World} {file : Path} {run : Run} {lines : List (List UInt8)}

theorem diagnosticsOf_eq (doc : Document) (lines : List (List UInt8)) :
    diagnosticsOf doc lines = do
      let found ← (lines.map lineText).mapM (Diagnostic.ofLine doc)
      return found.filterMap id := by
  rw [List.mapM_map]
  rfl

/-- The first line that refuses an option ends the reading of all of them. -/
theorem diagnosticsOf_of_refusal
    (h : (lines.map lineText).find? (Diagnostic.isRefusal doc) = some text) :
    diagnosticsOf doc lines = .error (.badFlag text) := by
  obtain ⟨hrefusal, before, behind, htexts, hbefore⟩ := List.find?_eq_some_iff_append.mp h
  rw [diagnosticsOf_eq, htexts,
    mapM_append_cons_of_error ?_ (Diagnostic.ofLine_of_isRefusal hrefusal)]
  · rfl
  · intro earlier hearlier
    have hnot : Diagnostic.isRefusal doc earlier = false := by simpa using hbefore earlier hearlier
    exact ⟨_, Diagnostic.ofLine_of_not_isRefusal hnot⟩

theorem diagnosticsOf_of_forall_not_refusal
    (h : ∀ text ∈ lines.map lineText, Diagnostic.isRefusal doc text = false) :
    diagnosticsOf doc lines = .ok ((lines.map lineText).filterMap (Diagnostic.reading? doc)) := by
  have hread : ∀ text ∈ lines.map lineText,
      Diagnostic.ofLine doc text = .ok (Diagnostic.reading? doc text) := by
    intro text htext
    exact Diagnostic.ofLine_of_not_isRefusal (h text htext)
  rw [diagnosticsOf_eq, mapM_of_forall_ok hread]
  show Except.ok _ = Except.ok _
  rw [List.filterMap_map]
  rfl

/-! ## 3. What is printed -/

end Compiler

/-- The member of an object with this key. -/
def Json.member? (key : String) : Json → Option Json
  | .obj members => members.lookup key
  | _ => none

namespace CompileResponse

/-- The diagnostics that an answer prints. -/
def printed (r : CompileResponse) : List Json :=
  match r.toJson.member? "diagnostics" with
  | some (.arr items) => items
  | _ => []

/-- Whether a printed diagnostic is about an error. -/
def printsError (item : Json) : Bool :=
  match item.member? "severity" with
  | some (.str severity) => severity == "error"
  | _ => false

/-- An answer that prints some diagnostics, counts them as it prints them, and tells success by the
printed errors and the exit code. -/
structure Tallies (r : CompileResponse) (found : List Diagnostic) (exitCode : Option Int) :
    Prop where
  printed : r.printed = found.map (·.toJson)
  total : r.errorCount + r.warningCount = found.length
  errors : r.errorCount = r.printed.countP printsError
  compiled_iff : r.compiled = true ↔ r.errorCount = 0 ∧ (exitCode = none ∨ exitCode = some 0)

theorem printsError_toJson (d : Diagnostic) : printsError d.toJson = d.isError := by
  unfold Diagnostic.isError
  cases hseverity : d.severity <;>
    simp [printsError, Diagnostic.toJson, Json.member?, hseverity, Severity.name]

theorem printed_eq (r : CompileResponse) : r.printed = r.diagnostics.map (·.toJson) := by
  rfl

end CompileResponse

theorem CompileReport.tallies_response (r : CompileReport) (root : Path) :
    (r.response root).Tallies r.diagnostics r.exitCode := by
  refine ⟨CompileResponse.printed_eq _, ?_, ?_, ?_⟩
  · show r.errorCount + (r.diagnostics.length - r.errorCount) = r.diagnostics.length
    have hle : r.errorCount ≤ r.diagnostics.length := List.countP_le_length
    omega
  · rw [CompileResponse.printed_eq, List.countP_map]
    have herror : CompileResponse.printsError ∘ Diagnostic.toJson = Diagnostic.isError :=
      funext CompileResponse.printsError_toJson
    exact congrArg (r.diagnostics.countP ·) herror.symm
  · show (r.errorCount == 0 && r.exitCode.getD 0 == 0) = true ↔ r.errorCount = 0 ∧ _
    rw [Bool.and_eq_true, beq_iff_eq, beq_iff_eq]
    cases r.exitCode <;> simp

/-! ## 4. Whole runs -/

namespace Compiler

variable {c : Compiler} {w : World} {file : Path} {run : Run} {lines : List (List UInt8)}

/-- What a run that was started comes to. -/
theorem compile_of_launch (c : Compiler) (doc : Document)
    (hlaunch : w.launch c.command (c.flags ++ [file.text, outputFile]) = .ok run)
    (hlines : LinesOf run.stderr lines) :
    (∀ text, (lines.map lineText).find? (Diagnostic.isRefusal doc) = some text →
      c.compile w file doc = .error (.badFlag text)) ∧
    ((∀ text ∈ lines.map lineText, Diagnostic.isRefusal doc text = false) → run.ending ≠ .never →
      ∃ report, c.compile w file doc = .ok report ∧ report.file = file ∧
        report.diagnostics = (lines.map lineText).filterMap (Diagnostic.reading? doc) ∧
        report.exitCode = run.exitCode? ∧
        ∀ root, (report.response root).Tallies report.diagnostics run.exitCode?) := by
  have hcompile : c.compile w file doc = c.reportOf file doc run := by
    unfold compile
    rw [hlaunch]
  rw [hcompile, reportOf, linesOf_iff.mp hlines]
  refine ⟨?_, ?_⟩
  · intro text htext
    rw [diagnosticsOf_of_refusal htext]
    rfl
  · intro hnone hending
    rw [diagnosticsOf_of_forall_not_refusal hnone]
    refine ⟨⟨file, (lines.map lineText).filterMap (Diagnostic.reading? doc), run.exitCode?⟩,
      ?_, rfl, rfl, rfl, fun root => CompileReport.tallies_response _ root⟩
    cases hend : run.ending with
    | never => exact absurd hend hending
    | exited code => rfl
    | signalled => rfl

/-- A world whose only program runs like this. -/
def worldOf (run : Run) : World where
  files := FileTree.empty.insert ["yarac"] (.file ByteArray.empty true)
  cwd := []
  env := []
  home := ⟨"/"⟩
  programs := [(["yarac"], fun _ _ => run)]

theorem launch_worldOf (run : Run) :
    (worldOf run).launch ⟨"/yarac"⟩ ["/a.yara", outputFile] = .ok run := by
  rfl

def bytesOf (text : String) : List UInt8 :=
  text.toList.map fun c => UInt8.ofNat c.toNat

/-- A run that refuses an option behind a diagnostic, and one with a byte that is not UTF-8 and with
line ends of both kinds. -/
theorem compile_of_launch_refused_and_read :
    let c : Compiler := ⟨⟨"/yarac"⟩, [], none⟩
    let doc := Document.ofString "rule r\n\x7b"
    let refusing : Run :=
      ⟨[], bytesOf "a.yara(1): error: x\nunknown option q\nunknown option z\n", .exited 1⟩
    let reading : Run :=
      ⟨[], bytesOf "a.yara(2): error: " ++ 0xff :: bytesOf "\r\nnote\na.yara(1): note: w",
        .exited 0⟩
    c.compile (worldOf refusing) ⟨"/a.yara"⟩ doc = .error (.badFlag "unknown option q".toList) ∧
      ∃ report, c.compile (worldOf reading) ⟨"/a.yara"⟩ doc = .ok report ∧
        report.diagnostics =
          [⟨Range.restOfLine 1 0, .error, [Text.Utf8.replacement]⟩,
            ⟨Range.restOfLine 0 0, .warning, ['w']⟩] ∧
        ∀ root, (report.response root).Tallies report.diagnostics (some 0) := by
  intro c doc refusing reading
  have hrefusing : LinesOf refusing.stderr
      [bytesOf "a.yara(1): error: x", bytesOf "unknown option q", bytesOf "unknown option z"] :=
    linesOf_iff.mpr (by decide)
  have hreading : LinesOf reading.stderr
      [bytesOf "a.yara(2): error: " ++ [0xff, 0x0d], bytesOf "note",
        bytesOf "a.yara(1): note: w"] :=
    linesOf_iff.mpr (by decide)
  refine ⟨?_, ?_⟩
  · apply (compile_of_launch c doc (launch_worldOf refusing) hrefusing).1
    rfl
  · obtain ⟨report, hreport, -, hdiagnostics, -, htallies⟩ :=
      (compile_of_launch c doc (launch_worldOf reading) hreading).2 (by decide) (by decide)
    refine ⟨report, hreport, ?_, htallies⟩
    rw [hdiagnostics]
    rfl

end Compiler

end RuleLens
