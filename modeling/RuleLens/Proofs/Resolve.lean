import RuleLens.Location.Resolve
import RuleLens.Proofs.Document
import RuleLens.Proofs.Location
import RuleLens.Proofs.Utf8

/-!
# Locations without a column

A location that names its column is taken as it stands.  One without a column has its file read, and
strictly so: where the bytes are UTF-8, the column is that of the document which a query loads, but
a document is loaded from any bytes.
-/

namespace RuleLens

variable {w : World} {p : Path} {content : ByteArray} {n limit : Nat}

/-! ## 1. Two readers of one file -/

theorem World.readText_of_read (h : w.read p = .ok content) :
    w.readText p = match Text.Utf8.decode? content.data.toList with
      | some text => .ok text
      | none => .error .notUtf8 := by
  unfold readText
  rw [h]
  rfl

theorem World.load_eq_ok_iff {doc : Document} :
    w.load limit p = .ok doc ↔
      ∃ content, w.read p = .ok content ∧ content.size ≤ limit ∧
        doc = .ofChars (Text.Utf8.decodeLossy content.data.toList) := by
  unfold load
  cases w.read p with
  | error cause => simp
  | ok content =>
    by_cases hsize : content.size > limit
    · have hlarge : ¬ content.size ≤ limit := by omega
      simp [hsize, hlarge]
    · have hsmall : content.size ≤ limit := by omega
      simp [hsize, hsmall, eq_comm]

theorem World.readText_of_isValidUTF8 (hread : w.read p = .ok content)
    (hvalid : content.IsValidUTF8) :
    w.readText p = .ok (Text.Utf8.decodeLossy content.data.toList) := by
  obtain ⟨text, htext⟩ := Option.isSome_iff_exists.mp (Text.Utf8.isSome_decode?_iff.mpr hvalid)
  rw [readText_of_read hread, htext, Text.Utf8.decodeLossy_of_decode? htext]

theorem World.readText_of_not_isValidUTF8 (hread : w.read p = .ok content)
    (hinvalid : ¬ content.IsValidUTF8) : w.readText p = .error .notUtf8 := by
  have hnone : Text.Utf8.decode? content.data.toList = none := by
    rw [← Option.not_isSome_iff_eq_none, Text.Utf8.isSome_decode?_iff]
    exact hinvalid
  rw [readText_of_read hread, hnone]

namespace Location

/-! ## 2. The column of the first word -/

/-- The characters that an indented line may have in front of its first word. -/
def sigils : List Char := ['$', '#', '@', '!']

theorem isSome_ofChar?_iff_mem_sigils {c : Char} :
    (Sigil.ofChar? c).isSome = true ↔ c ∈ sigils := by
  unfold Sigil.ofChar? sigils
  split <;> simp_all

/-- The column, counted from 1, at which the first word of a line stands: behind the indentation,
and behind one sigil there.  A line past the end counts as empty. -/
def IsWordColumn (doc : Document) (line column : Nat) : Prop :=
  match doc.line? line with
  | none => column = 1
  | some text =>
    ∃ col, Document.IsIndent text col ∧
      ((∃ c ∈ text[col]?, c ∈ sigils) ∧ column = 1 + col + 1 ∨
        (∀ c ∈ text[col]?, c ∉ sigils) ∧ column = 1 + col)

theorem isWordColumn_indentColumn (doc : Document) (line : Nat) :
    IsWordColumn doc line (indentColumn doc line) := by
  unfold IsWordColumn indentColumn Document.indent? Document.char?
  cases hline : doc.line? line with
  | none => rfl
  | some text =>
    refine ⟨Document.indent text, Document.isIndent_indent text, ?_⟩
    simp only [Option.map_some, hline, Option.bind_eq_bind, Option.bind_some]
    cases text[Document.indent text]? with
    | none => exact .inr ⟨nofun, Nat.add_comm ..⟩
    | some c =>
      have hsigil := isSome_ofChar?_iff_mem_sigils (c := c)
      cases hc : Sigil.ofChar? c with
      | none =>
        rw [hc] at hsigil
        refine .inr ⟨?_, ?_⟩
        · rintro _ ⟨⟩ hmem
          exact nomatch hsigil.mpr hmem
        · simp [hc, Nat.add_comm]
      | some sigil =>
        rw [hc] at hsigil
        refine .inl ⟨⟨c, rfl, hsigil.mp rfl⟩, ?_⟩
        simp only [Option.bind_some, hc]
        omega

/-! ## 3. Locations in a file -/

theorem head?_of_canonical {q : Path} (h : w.canonical p = .ok q) :
    q.text.toList.head? = some '/' := by
  unfold World.canonical at h
  obtain ⟨names, -, hq⟩ := bind_eq_ok_iff.mp h
  cases hq
  simp

/-- No colon of a path without colons has a number behind it. -/
theorem isFile_of_canonical {q : Path} (h : w.canonical p = .ok q) (hcolon : ':' ∉ q.text.toList) :
    IsFile q.text.toList := by
  constructor
  · intro front rest heq
    have hmem : ':' ∈ q.text.toList.drop (driveLength q.text.toList) := by
      rw [heq]
      simp
    exact absurd (List.mem_of_mem_drop hmem) hcolon
  · intro c hc
    have hhead := head?_of_canonical h
    rw [hc] at hhead
    cases hhead
    rfl

theorem readable_of_canonical (h : w.canonical p = .ok p) (hcolon : ':' ∉ p.text.toList)
    (hn : IsNumber n) {column : Option Nat} (hcolumn : ∀ k, column = some k → IsNumber k) :
    Readable ⟨p, n, column⟩ where
  isFile := isFile_of_canonical h hcolon
  not_blank := by
    intro c hc
    rw [head?_of_canonical h] at hc
    cases hc
    rfl
  line := hn
  column := hcolumn

theorem toAbsolute_of_canonical (h : w.canonical p = .ok p) (column : Option Nat) :
    toAbsolute ⟨p, n, column⟩ w = .ok ⟨p, n, column⟩ := by
  have habsolute : p.isAbsolute = true := by
    unfold Path.isAbsolute
    rw [head?_of_canonical h]
    rfl
  unfold toAbsolute
  simp only [habsolute, if_true]
  rw [h]

theorem resolve_toString (h : w.canonical p = .ok p) (hcolon : ':' ∉ p.text.toList)
    (hn : IsNumber n) {column : Option Nat} (hcolumn : ∀ k, column = some k → IsNumber k) :
    resolve w (toString ⟨p, n, column⟩) = withColumn ⟨p, n, column⟩ w := by
  unfold resolve
  rw [ofString_toString (readable_of_canonical h hcolon hn hcolumn)]
  show (toAbsolute ⟨p, n, column⟩ w >>= fun l => l.withColumn w) = _
  rw [toAbsolute_of_canonical h column]
  rfl

theorem toString_line (p : Path) (n : Nat) :
    toString ⟨p, n, none⟩ = p.text ++ ":" ++ n.repr := by
  apply String.toList_inj.mp
  simp [toString, toChars, Text.decimal, Nat.repr]

theorem toString_column (p : Path) (n k : Nat) :
    toString ⟨p, n, some k⟩ = p.text ++ ":" ++ n.repr ++ ":" ++ k.repr := by
  apply String.toList_inj.mp
  simp [toString, toChars, Text.decimal, Nat.repr]

/-- Where a document is loaded, a location in its file that names a column is taken as it stands.
One without a column is taken only if the file is UTF-8; it then means the first word of its line on
that very document. -/
theorem resolve_of_load {doc : Document} (hcanonical : w.canonical p = .ok p)
    (hcolon : ':' ∉ p.text.toList) (hn : 1 ≤ n ∧ n ≤ Text.max32)
    (hload : w.load limit p = .ok doc) :
    (∀ k, 1 ≤ k → k ≤ Text.max32 →
      resolve w (p.text ++ ":" ++ n.repr ++ ":" ++ k.repr) = .ok ⟨p, n, some k⟩) ∧
    ∃ content, w.read p = .ok content ∧
      (content.IsValidUTF8 → ∃ column, IsWordColumn doc (n - 1) column ∧
        resolve w (p.text ++ ":" ++ n.repr) = .ok ⟨p, n, some column⟩) ∧
      (¬ content.IsValidUTF8 →
        resolve w (p.text ++ ":" ++ n.repr) = .error (.unreadable p)) := by
  obtain ⟨content, hread, -, rfl⟩ := World.load_eq_ok_iff.mp hload
  have hline : resolve w (p.text ++ ":" ++ n.repr) = withColumn ⟨p, n, none⟩ w := by
    rw [← toString_line]
    exact resolve_toString hcanonical hcolon hn nofun
  refine ⟨?_, content, hread, ?_, ?_⟩
  · intro k hpos hmax
    have hcolumn : ∀ j, some k = some j → IsNumber j := by
      rintro j ⟨⟩
      exact ⟨hpos, hmax⟩
    rw [← toString_column, resolve_toString hcanonical hcolon hn hcolumn]
    rfl
  · intro hvalid
    refine ⟨_, isWordColumn_indentColumn _ _, ?_⟩
    rw [hline, withColumn, World.readText_of_isValidUTF8 hread hvalid]
  · intro hinvalid
    rw [hline, withColumn, World.readText_of_not_isValidUTF8 hread hinvalid]

/-- A world with two files, one of them with a byte that is not UTF-8. -/
def twoFiles : World where
  files := (FileTree.empty.insert ["latin.yara"] (.file ⟨#[0xff]⟩ false)).insert ["tabs.yara"]
    (.file "rule r \x7b\n\t $a = 1\n\x7d".toUTF8 false)
  cwd := []
  env := []
  home := ⟨"/"⟩
  programs := []

/-- Both files are loaded, and a column is computed in one of them only. -/
theorem resolve_of_load_twoFiles :
    twoFiles.load 100 ⟨"/latin.yara"⟩ = .ok ⟨[[Text.Utf8.replacement]]⟩ ∧
      resolve twoFiles "/latin.yara:1" = .error (.unreadable ⟨"/latin.yara"⟩) ∧
      resolve twoFiles "/latin.yara:1:1" = .ok ⟨⟨"/latin.yara"⟩, 1, some 1⟩ ∧
      ∃ doc column, twoFiles.load 100 ⟨"/tabs.yara"⟩ = .ok doc ∧
        resolve twoFiles "/tabs.yara:2" = .ok ⟨⟨"/tabs.yara"⟩, 2, some column⟩ ∧
        IsWordColumn doc 1 column := by
  have hlatin : twoFiles.load 100 ⟨"/latin.yara"⟩ = .ok ⟨[[Text.Utf8.replacement]]⟩ := by
    decide +kernel
  have htabs : twoFiles.load 100 ⟨"/tabs.yara"⟩ =
      .ok (.ofString "rule r \x7b\n\t $a = 1\n\x7d") := by
    decide +kernel
  obtain ⟨hexact, content, hread, -, hinvalid⟩ :=
    resolve_of_load (by decide +kernel) (by decide) (n := 1) (by decide) hlatin
  obtain ⟨-, content', hread', hvalid, -⟩ :=
    resolve_of_load (by decide +kernel) (by decide) (n := 2) (by decide) htabs
  cases hread
  cases hread'
  obtain ⟨column, hcolumn, hresolve⟩ := hvalid (Text.Utf8.isSome_decode?_iff.mp (by decide +kernel))
  refine ⟨hlatin, hinvalid ?_, hexact 1 (by decide) (by decide), _, column, htabs, hresolve,
    hcolumn⟩
  rw [← Text.Utf8.isSome_decode?_iff]
  decide +kernel

end Location

end RuleLens
