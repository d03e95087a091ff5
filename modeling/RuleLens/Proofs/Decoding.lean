import RuleLens.Proofs.Compiler
import RuleLens.Proofs.Resolve

/-!
# Lines of bytes and lines of text

A line feed ends whatever character is in progress, and no other byte is ever read as a part of one.
So it makes no difference whether bytes are divided into lines before they are decoded, as the error
stream of a compiler is, or after, as a document is.
-/

namespace RuleLens

namespace Text.Utf8

variable {p : Pending} {b : UInt8} {bytes front rest : List UInt8}

/-! ## 1. Characters in progress -/

/-- A character in progress is not ASCII, whatever comes next: the bytes that may continue it are
not, and the number that they lead to is too large. -/
inductive Pending.BeyondAscii : Pending → Prop
  | none : BeyondAscii .none
  | some {more : Nat} {low high : UInt8} {code : Nat} (hlow : 0x80 ≤ low.toNat)
      (hhigh : high.toNat ≤ 0xbf) (hcode : 2 ≤ code * 64 + low.toNat % 64)
      (hlast : more ≤ 1 → 2 ≤ code) : BeyondAscii (.some more low high code)

theorem le_toNat_lowest (a : UInt8) :
    0x80 ≤ (lowest a).toNat ∧ (lowest a).toNat ≤ 0xbf ∧
      (a.toNat = 0xe0 → 0xa0 ≤ (lowest a).toNat) ∧ (a.toNat = 0xf0 → 0x90 ≤ (lowest a).toNat) := by
  have he0 : a = 0xe0 ↔ a.toNat = 0xe0 := UInt8.toNat_inj.symm
  have hf0 : a = 0xf0 ↔ a.toNat = 0xf0 := UInt8.toNat_inj.symm
  unfold lowest
  simp only [he0, hf0, apply_ite UInt8.toNat, UInt8.reduceToNat]
  split
  · omega
  split <;> omega

theorem toNat_highest_le (a : UInt8) : (highest a).toNat ≤ 0xbf := by
  unfold highest
  split
  · decide
  split <;> decide

/-- The first byte of a character is all of it, or no such byte, or the start of a character that is
not ASCII. -/
theorem start_cases (b : UInt8) :
    start b = (.none, [some (Char.ofNat b.toNat)]) ∨ start b = (.none, [none]) ∨
      ∃ p, p.BeyondAscii ∧ start b = (p, []) := by
  obtain ⟨hlow, hlow', he0, hf0⟩ := le_toNat_lowest b
  have hhigh := toNat_highest_le b
  rcases Nat.lt_or_ge b.toNat 0x80 with h1 | h1
  · exact .inl (start_of_lt h1)
  rcases Nat.lt_or_ge b.toNat 0xc2 with h2 | h2
  · exact .inr (.inl (start_of_not_first (.inl ⟨h1, h2⟩)))
  rcases Nat.lt_or_ge b.toNat 0xe0 with h3 | h3
  · refine .inr (.inr ⟨_, .some hlow hhigh ?_ ?_, start_two h2 h3⟩) <;> omega
  rcases Nat.lt_or_ge b.toNat 0xf0 with h4 | h4
  · refine .inr (.inr ⟨_, .some hlow hhigh ?_ ?_, start_three h3 h4⟩) <;> omega
  rcases Nat.lt_or_ge b.toNat 0xf5 with h5 | h5
  · refine .inr (.inr ⟨_, .some hlow hhigh ?_ ?_, start_four h4 h5⟩) <;> omega
  · exact .inr (.inl (start_of_not_first (.inr h5)))

theorem beyondAscii_start (b : UInt8) : (start b).1.BeyondAscii := by
  rcases start_cases b with h | h | ⟨p, hp, h⟩ <;> rw [h]
  · exact .none
  · exact .none
  · exact hp

theorem beyondAscii_step (h : p.BeyondAscii) (b : UInt8) : (step p b).1.BeyondAscii := by
  cases h with
  | none => exact beyondAscii_start b
  | some hlow hhigh hcode hlast =>
    rw [step]
    split
    · rename_i hwithin
      rw [Bool.and_eq_true, decide_eq_true_eq, decide_eq_true_eq, UInt8.le_iff_toNat_le,
        UInt8.le_iff_toNat_le] at hwithin
      dsimp only
      split
      · exact .none
      · refine .some (by decide) (by decide) ?_ ?_
        · simp only [UInt8.reduceToNat]
          omega
        · omega
    · exact beyondAscii_start b

/-! ## 2. Line feeds -/

/-- A line feed breaks off the character in progress, just as the end of the bytes does. -/
theorem step_lineFeed (h : p.BeyondAscii) : step p 0x0a = (.none, finish p ++ [some '\n']) := by
  cases h with
  | none => rfl
  | @some more low high code hlow hhigh hcode hlast =>
    have hnot : ¬ low ≤ 0x0a := by
      rw [UInt8.le_iff_toNat_le]
      exact Nat.not_le.mpr (Nat.lt_of_lt_of_le (by decide) hlow)
    rw [step, if_neg (by simp [hnot])]
    rfl

theorem ofNat_ne_lineFeed {n : Nat} (h : n ≠ 10) : Char.ofNat n ≠ '\n' := by
  intro heq
  have hcode := congrArg Char.toNat heq
  by_cases hvalid : n.isValidChar
  · rw [Char.ofNat, dif_pos hvalid] at hcode
    exact h hcode
  · rw [Char.ofNat, dif_neg hvalid] at hcode
    exact absurd hcode (by decide)

theorem lineFeed_not_mem_start (h : b ≠ 0x0a) : some '\n' ∉ (start b).2 := by
  rcases start_cases b with hstart | hstart | ⟨p, -, hstart⟩ <;> rw [hstart]
  · have hb : b.toNat ≠ 10 := fun heq => h (UInt8.toNat_inj.mp heq)
    rw [List.mem_singleton, Option.some_inj]
    exact fun heq => ofNat_ne_lineFeed hb heq.symm
  · decide
  · exact List.not_mem_nil

theorem lineFeed_not_mem_step (h : p.BeyondAscii) (hb : b ≠ 0x0a) :
    some '\n' ∉ (step p b).2 := by
  cases h with
  | none => exact lineFeed_not_mem_start hb
  | @some more low high code hlow hhigh hcode hlast =>
    rw [step]
    split
    · dsimp only
      split
      · rename_i hmore
        have hnumber : code * 64 + b.toNat % 64 ≠ 10 := by
          have := hlast hmore
          omega
        rw [List.mem_singleton, Option.some_inj]
        exact fun heq => ofNat_ne_lineFeed hnumber heq.symm
      · exact List.not_mem_nil
    · rw [List.mem_cons]
      rintro (hnone | hmem)
      · cases hnone
      · exact lineFeed_not_mem_start hb hmem

/-! ## 3. Runs of the decoder -/

/-- Behind a line feed the decoder stands between two characters. -/
theorem run_lineFeed (h : p.BeyondAscii) (front rest : List UInt8) :
    run p [] (front ++ 0x0a :: rest) = run p [] front ++ some '\n' :: units rest := by
  induction front generalizing p with
  | nil =>
    rw [List.nil_append, run_cons, step_lineFeed h]
    simp [run, units]
  | cons b front ih =>
    rw [List.cons_append, run_cons, run_cons, ih (beyondAscii_step h b), List.append_assoc]

theorem lineFeed_not_mem_run (h : p.BeyondAscii) (hbytes : 0x0a ∉ bytes) :
    some '\n' ∉ run p [] bytes := by
  induction bytes generalizing p with
  | nil => cases p <;> simp [run, finish]
  | cons b bytes ih =>
    rw [List.mem_cons, not_or] at hbytes
    rw [run_cons, List.mem_append, not_or]
    exact ⟨lineFeed_not_mem_step h (Ne.symm hbytes.1), ih (beyondAscii_step h b) hbytes.2⟩

theorem decodeLossy_lineFeed (front rest : List UInt8) :
    decodeLossy (front ++ 0x0a :: rest) = decodeLossy front ++ '\n' :: decodeLossy rest := by
  unfold decodeLossy units
  rw [run_lineFeed .none, List.map_append, List.map_cons]
  rfl

theorem lineFeed_not_mem_decodeLossy (h : 0x0a ∉ bytes) : '\n' ∉ decodeLossy bytes := by
  unfold decodeLossy
  rw [List.mem_map]
  rintro ⟨unit, hunit, hchar⟩
  cases unit with
  | none => exact absurd hchar (by decide)
  | some c =>
    change c = '\n' at hchar
    rw [hchar] at hunit
    exact lineFeed_not_mem_run .none h hunit

theorem decodeLossy_intercalate {pieces : List (List UInt8)} (h : pieces ≠ []) :
    decodeLossy ([0x0a].intercalate pieces) = ['\n'].intercalate (pieces.map decodeLossy) := by
  induction pieces with
  | nil => exact absurd rfl h
  | cons piece rest ih =>
    cases rest with
    | nil => simp
    | cons next rest =>
      rw [List.map_cons, List.map_cons, List.intercalate_cons_cons, List.intercalate_cons_cons,
        ← List.map_cons, ← ih (List.cons_ne_nil next rest), List.append_assoc, List.append_assoc,
        List.singleton_append, List.singleton_append, decodeLossy_lineFeed]

/-- Bytes may be divided into lines before they are decoded or after. -/
theorem splitOn_decodeLossy (bytes : List UInt8) :
    (decodeLossy bytes).splitOn '\n' = (bytes.splitOn 0x0a).map decodeLossy := by
  have hne : bytes.splitOn 0x0a ≠ [] := List.splitOn_ne_nil 0x0a bytes
  have hbytes : [0x0a].intercalate (bytes.splitOn 0x0a) = bytes := List.intercalate_splitOn 0x0a
  have hdecoded := decodeLossy_intercalate hne
  rw [hbytes] at hdecoded
  rw [hdecoded]
  apply List.splitOn_intercalate
  · intro line hline
    obtain ⟨piece, hpiece, rfl⟩ := List.mem_map.mp hline
    exact lineFeed_not_mem_decodeLossy (not_mem_of_mem_splitOn hpiece)
  · simp

end Text.Utf8

/-! ## 4. Documents and error streams -/

namespace Compiler

variable {bytes : List UInt8}

theorem map_lineText_splitOn (bytes : List UInt8) :
    (bytes.splitOn 0x0a).map lineText =
      (Document.ofChars (Text.Utf8.decodeLossy bytes)).lines := by
  show _ = ((Text.Utf8.decodeLossy bytes).splitOn '\n').map Document.dropReturn
  rw [Text.Utf8.splitOn_decodeLossy, List.map_map]
  rfl

/-- Every line of the bytes has been ended, so no text stands behind the last one. -/
def IsEnded (bytes : List UInt8) : Prop :=
  ∀ b ∈ bytes.getLast?, b = 0x0a

/-- The last piece of a stream is its text behind the last line feed. -/
theorem isEnded_iff {ended : List (List UInt8)} {last : List UInt8} (hlast : 0x0a ∉ last) :
    IsEnded (ended.flatMap (· ++ [0x0a]) ++ last) ↔ last = [] := by
  unfold IsEnded
  apply Iff.intro
  · intro h
    apply List.eq_nil_iff_forall_not_mem.mpr
    intro b hb
    have hne : last ≠ [] := List.ne_nil_of_mem hb
    rw [List.getLast?_append, List.getLast?_eq_some_getLast hne, Option.some_or] at h
    apply hlast
    rw [← h _ rfl]
    exact List.getLast_mem hne
  · rintro rfl b hb
    rw [List.append_nil, List.getLast?_flatMap] at hb
    obtain ⟨line, -, hline⟩ := List.exists_of_findSome?_eq_some hb
    rw [List.getLast?_concat] at hline
    exact (Option.some.inj hline).symm

/-- An error stream has the lines of a document with these bytes, less an empty one at its end. -/
theorem map_lineText_streamLines (bytes : List UInt8) :
    (IsEnded bytes → (streamLines bytes).map lineText =
      (Document.ofChars (Text.Utf8.decodeLossy bytes)).lines.dropLast) ∧
    (¬ IsEnded bytes → (streamLines bytes).map lineText =
      (Document.ofChars (Text.Utf8.decodeLossy bytes)).lines) := by
  obtain ⟨ended, last, hended, hlast, hbytes, hlines⟩ :=
    linesOf_iff.mpr (Eq.refl (streamLines bytes))
  have hpieces : bytes.splitOn 0x0a = ended ++ [last] := by
    rw [hbytes]
    exact Text.splitOn_flatMap hended hlast
  rw [hlines, ← map_lineText_splitOn, hpieces, hbytes, isEnded_iff hlast]
  refine ⟨fun h => ?_, fun h => ?_⟩
  · rw [if_pos h, List.map_append, List.map_singleton, List.dropLast_concat]
  · rw [if_neg h]

end Compiler

namespace Document

open Compiler (lineText streamLines IsEnded)
open Text.Utf8 (decodeLossy)

/-- Bytes have the same lines whether they are decoded before they are divided into lines or after.
So a document that is loaded has the lines that are read from an error stream with these bytes,
which does without an empty last line.  The bytes of a text are loaded as that text. -/
theorem lines_of_bytes :
    (∀ bytes : List UInt8,
      (bytes.splitOn 0x0a).map decodeLossy = (decodeLossy bytes).splitOn '\n' ∧
      (bytes.splitOn 0x0a).map lineText = (ofChars (decodeLossy bytes)).lines ∧
      (IsEnded bytes → (streamLines bytes).map lineText =
        (ofChars (decodeLossy bytes)).lines.dropLast) ∧
      (¬ IsEnded bytes →
        (streamLines bytes).map lineText = (ofChars (decodeLossy bytes)).lines)) ∧
    (∀ (w : World) p limit content, w.read p = .ok content → content.size ≤ limit →
      w.load limit p = .ok ⟨(content.data.toList.splitOn 0x0a).map lineText⟩) ∧
    ∀ text : String, decodeLossy text.toUTF8.data.toList = text.toList ∧
      ∀ (w : World) p limit, w.read p = .ok text.toUTF8 → text.utf8ByteSize ≤ limit →
        w.load limit p = .ok (.ofString text) := by
  refine ⟨fun bytes => ?_, fun w p limit content hread hsize => ?_, fun text => ?_⟩
  · obtain ⟨hended, hnot⟩ := Compiler.map_lineText_streamLines bytes
    exact ⟨(Text.Utf8.splitOn_decodeLossy bytes).symm, Compiler.map_lineText_splitOn bytes, hended,
      hnot⟩
  · rw [World.load_eq_ok_iff, Compiler.map_lineText_splitOn]
    exact ⟨content, hread, hsize, rfl⟩
  · have hdecode : decodeLossy text.toUTF8.data.toList = text.toList :=
      Text.Utf8.decodeLossy_of_decode? (Text.Utf8.decode?_toUTF8 text)
    refine ⟨hdecode, fun w p limit hread hsize => ?_⟩
    rw [World.load_eq_ok_iff]
    refine ⟨text.toUTF8, hread, hsize, ?_⟩
    rw [hdecode]
    rfl

/-- A world with two files: a text that is not all ASCII, and bytes in which line feeds break off
characters. -/
def torn : World where
  files := (FileTree.empty.insert ["a.yara"] (.file "é\r\n€\n".toUTF8 false)).insert ["b.yara"]
    (.file ⟨#[0xe2, 0x82, 0x0a, 0xf0, 0x9f, 0x0d, 0x0a, 0xc3]⟩ false)
  cwd := []
  env := []
  home := ⟨"/"⟩
  programs := []

theorem lines_of_bytes_torn :
    torn.load 9 ⟨"/a.yara"⟩ = .ok (.ofString "é\r\n€\n") ∧
      (Document.ofString "é\r\n€\n").lines = [['é'], ['€'], []] ∧
      torn.load 9 ⟨"/b.yara"⟩ =
        .ok ⟨[[Text.Utf8.replacement], [Text.Utf8.replacement], [Text.Utf8.replacement]]⟩ := by
  obtain ⟨-, hload, htext⟩ := lines_of_bytes
  refine ⟨(htext "é\r\n€\n").2 torn _ _ (by rfl) (by decide), by rfl, ?_⟩
  rw [hload torn _ _ ⟨#[0xe2, 0x82, 0x0a, 0xf0, 0x9f, 0x0d, 0x0a, 0xc3]⟩ (by rfl) (by decide)]
  decide +kernel

end Document

end RuleLens
