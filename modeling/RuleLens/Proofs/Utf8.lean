import RuleLens.Text.Utf8

/-!
# UTF-8 read back

The bytes of a text are read as that text, by the lossy reading as well as by the strict one, and
the strict reading takes no other bytes.  Between the decoder, which knows only the byte to come,
and the encoding of a character stands the table of well-formed byte sequences.
-/

namespace RuleLens.Text.Utf8

variable {a b low high : UInt8} {bytes rest : List UInt8} {text : List Char} {code : Nat}

/-! ## 1. Bytes one at a time -/

theorem run_eq_append (p : Pending) (found : List (Option Char)) (bytes : List UInt8) :
    run p found bytes = found.reverse ++ run p [] bytes := by
  induction bytes generalizing p found with
  | nil => simp [run]
  | cons b rest ih =>
    rw [run, run, ih, ih _ (_ ++ [])]
    simp

theorem run_cons (p : Pending) (b : UInt8) (rest : List UInt8) :
    run p [] (b :: rest) = (step p b).2 ++ run (step p b).1 [] rest := by
  rw [run, run_eq_append]
  simp

/-- The bounds of the byte behind the first one of a character: some first bytes could start a
longer form than necessary, a surrogate, or a number that is no character. -/
def lowest (a : UInt8) : UInt8 :=
  if a = 0xe0 then 0xa0 else if a = 0xf0 then 0x90 else 0x80

def highest (a : UInt8) : UInt8 :=
  if a = 0xed then 0x9f else if a = 0xf4 then 0x8f else 0xbf

theorem start_of_lt (h : b.toNat < 0x80) : start b = (.none, [some (Char.ofNat b.toNat)]) :=
  if_pos (UInt8.lt_iff_toNat_lt.mpr h)

theorem start_two (h : 0xc2 ≤ b.toNat) (h' : b.toNat < 0xe0) :
    start b = (.some 1 (lowest b) (highest b) (b.toNat % 32), []) := by
  have hne : ∀ n : UInt8, 0xe0 ≤ n.toNat → b ≠ n := by
    rintro n hn rfl
    omega
  simp only [start, UInt8.lt_iff_toNat_lt, UInt8.reduceToNat]
  rw [if_neg (by omega), if_neg (by omega), if_pos h', lowest, highest, if_neg (hne _ (by decide)),
    if_neg (hne _ (by decide)), if_neg (hne _ (by decide)), if_neg (hne _ (by decide))]

theorem start_three (h : 0xe0 ≤ b.toNat) (h' : b.toNat < 0xf0) :
    start b = (.some 2 (lowest b) (highest b) (b.toNat % 16), []) := by
  have hne : ∀ n : UInt8, 0xf0 ≤ n.toNat → b ≠ n := by
    rintro n hn rfl
    omega
  by_cases he0 : b = 0xe0
  · rw [he0]
    rfl
  by_cases hed : b = 0xed
  · rw [hed]
    rfl
  simp only [start, UInt8.lt_iff_toNat_lt, UInt8.reduceToNat]
  rw [if_neg (by omega), if_neg (by omega), if_neg (by omega), if_neg he0, if_neg hed, if_pos h',
    lowest, highest, if_neg he0, if_neg hed, if_neg (hne _ (by decide)), if_neg (hne _ (by decide))]

theorem start_four (h : 0xf0 ≤ b.toNat) (h' : b.toNat < 0xf5) :
    start b = (.some 3 (lowest b) (highest b) (b.toNat % 8), []) := by
  have hne : ∀ n : UInt8, n.toNat < 0xf0 → b ≠ n := by
    rintro n hn rfl
    omega
  by_cases hf0 : b = 0xf0
  · rw [hf0]
    rfl
  by_cases hf4 : b = 0xf4
  · rw [hf4]
    rfl
  have hlt : b.toNat < 0xf4 := by
    have : b.toNat ≠ 0xf4 := fun h => hf4 (UInt8.toNat_inj.mp h)
    omega
  simp only [start, UInt8.lt_iff_toNat_lt, UInt8.reduceToNat]
  rw [if_neg (by omega), if_neg (by omega), if_neg (by omega), if_neg (hne _ (by decide)),
    if_neg (hne _ (by decide)), if_neg (by omega), if_neg hf0, if_pos hlt, lowest, highest,
    if_neg hf0, if_neg hf4, if_neg (hne _ (by decide)), if_neg (hne _ (by decide))]

theorem start_of_not_first (h : (0x80 ≤ b.toNat ∧ b.toNat < 0xc2) ∨ 0xf5 ≤ b.toNat) :
    start b = (.none, [none]) := by
  have hne : ∀ n : UInt8, 0xe0 ≤ n.toNat → n.toNat < 0xf5 → b ≠ n := by
    rintro n hn hn' rfl
    omega
  simp only [start, UInt8.lt_iff_toNat_lt, UInt8.reduceToNat]
  rcases h with ⟨h, h'⟩ | h
  · rw [if_neg (by omega), if_pos h']
  · rw [if_neg (by omega), if_neg (by omega), if_neg (by omega),
      if_neg (hne _ (by decide) (by decide)), if_neg (hne _ (by decide) (by decide)),
      if_neg (by omega), if_neg (hne _ (by decide) (by decide)), if_neg (by omega),
      if_neg (hne _ (by decide) (by decide))]

/-- A byte between two bounds. -/
def Within (low high b : UInt8) : Prop := low ≤ b ∧ b ≤ high

/-- A byte that is neither the first nor the second one of its character. -/
def IsTail (b : UInt8) : Prop := Within 0x80 0xbf b

theorem step_last (h : Within low high b) (code : Nat) :
    step (.some 1 low high code) b = (.none, [some (Char.ofNat (code * 64 + b.toNat % 64))]) := by
  simp [step, h.1, h.2]

theorem step_more (h : Within low high b) (more code : Nat) :
    step (.some (more + 2) low high code) b =
      (.some (more + 1) 0x80 0xbf (code * 64 + b.toNat % 64), []) := by
  simp [step, h.1, h.2]

/-- A character in progress needs a byte between its bounds to come. -/
theorem exists_within_of_run {more : Nat} (h : none ∉ run (.some more low high code) [] bytes) :
    ∃ b rest, bytes = b :: rest ∧ Within low high b := by
  cases bytes with
  | nil => exact absurd (by simp [run, finish]) h
  | cons b rest =>
    refine ⟨b, rest, rfl, ?_⟩
    rw [run_cons, step] at h
    split at h
    · rename_i hwithin
      simpa [Within] using hwithin
    · exact absurd List.mem_cons_self h

/-! ## 2. Well-formed sequences -/

/-- The bytes spell the character with the number `code`. -/
inductive Spells : Nat → List UInt8 → Prop
  | one {a : UInt8} (ha : a.toNat < 0x80) : Spells a.toNat [a]
  | two {a b : UInt8} (ha : 0xc2 ≤ a.toNat) (ha' : a.toNat < 0xe0)
      (hb : Within (lowest a) (highest a) b) : Spells (a.toNat % 32 * 64 + b.toNat % 64) [a, b]
  | three {a b c : UInt8} (ha : 0xe0 ≤ a.toNat) (ha' : a.toNat < 0xf0)
      (hb : Within (lowest a) (highest a) b) (hc : IsTail c) :
      Spells ((a.toNat % 16 * 64 + b.toNat % 64) * 64 + c.toNat % 64) [a, b, c]
  | four {a b c d : UInt8} (ha : 0xf0 ≤ a.toNat) (ha' : a.toNat < 0xf5)
      (hb : Within (lowest a) (highest a) b) (hc : IsTail c) (hd : IsTail d) :
      Spells (((a.toNat % 8 * 64 + b.toNat % 64) * 64 + c.toNat % 64) * 64 + d.toNat % 64)
        [a, b, c, d]

theorem run_append_of_spells (h : Spells code bytes) (rest : List UInt8) :
    run .none [] (bytes ++ rest) = some (Char.ofNat code) :: run .none [] rest := by
  cases h with
  | one ha =>
    rw [List.singleton_append, run_cons, step, start_of_lt ha]
    rfl
  | two ha ha' hb =>
    rw [List.cons_append, run_cons, step, start_two ha ha', List.singleton_append, run_cons,
      step_last hb]
    rfl
  | three ha ha' hb hc =>
    rw [List.cons_append, run_cons, step, start_three ha ha', List.cons_append, run_cons,
      step_more hb, List.singleton_append, run_cons, step_last hc]
    rfl
  | four ha ha' hb hc hd =>
    rw [List.cons_append, run_cons, step, start_four ha ha', List.cons_append, run_cons,
      step_more hb, List.cons_append, run_cons, step_more hc, List.singleton_append, run_cons,
      step_last hd]
    rfl

/-- Bytes that are read without an error start with those of a character. -/
theorem exists_spells_of_run (h : none ∉ run .none [] (a :: rest)) :
    ∃ code head tail, a :: rest = head ++ tail ∧ head ≠ [] ∧ Spells code head := by
  rw [run_cons, step] at h
  have hlt : a.toNat < 256 := a.toNat_lt
  rcases Nat.lt_or_ge a.toNat 0x80 with h1 | h1
  · exact ⟨_, [a], rest, rfl, List.cons_ne_nil _ _, .one h1⟩
  rcases Nat.lt_or_ge a.toNat 0xc2 with h2 | h2
  · rw [start_of_not_first (.inl ⟨h1, h2⟩)] at h
    exact absurd List.mem_cons_self h
  rcases Nat.lt_or_ge a.toNat 0xe0 with h3 | h3
  · rw [start_two h2 h3] at h
    obtain ⟨b, rest, rfl, hb⟩ := exists_within_of_run h
    exact ⟨_, [a, b], rest, rfl, List.cons_ne_nil _ _, .two h2 h3 hb⟩
  rcases Nat.lt_or_ge a.toNat 0xf0 with h4 | h4
  · rw [start_three h3 h4] at h
    obtain ⟨b, rest, rfl, hb⟩ := exists_within_of_run h
    rw [List.nil_append, run_cons, step_more hb] at h
    obtain ⟨c, rest, rfl, hc⟩ := exists_within_of_run h
    exact ⟨_, [a, b, c], rest, rfl, List.cons_ne_nil _ _, .three h3 h4 hb hc⟩
  rcases Nat.lt_or_ge a.toNat 0xf5 with h5 | h5
  · rw [start_four h4 h5] at h
    obtain ⟨b, rest, rfl, hb⟩ := exists_within_of_run h
    rw [List.nil_append, run_cons, step_more hb] at h
    obtain ⟨c, rest, rfl, hc⟩ := exists_within_of_run h
    rw [List.nil_append, run_cons, step_more hc] at h
    obtain ⟨d, rest, rfl, hd⟩ := exists_within_of_run h
    exact ⟨_, [a, b, c, d], rest, rfl, List.cons_ne_nil _ _, .four h4 h5 hb hc hd⟩
  · rw [start_of_not_first (.inr h5)] at h
    exact absurd List.mem_cons_self h

/-! ## 3. Characters -/

theorem within_iff : Within low high b ↔ low.toNat ≤ b.toNat ∧ b.toNat ≤ high.toNat := by
  unfold Within
  rw [UInt8.le_iff_toNat_le, UInt8.le_iff_toNat_le]

theorem isTail_iff : IsTail b ↔ 0x80 ≤ b.toNat ∧ b.toNat ≤ 0xbf :=
  within_iff

theorem within_second_iff :
    Within (lowest a) (highest a) b ↔
      (0x80 ≤ b.toNat ∧ b.toNat ≤ 0xbf) ∧ (a.toNat = 0xe0 → 0xa0 ≤ b.toNat) ∧
        (a.toNat = 0xf0 → 0x90 ≤ b.toNat) ∧ (a.toNat = 0xed → b.toNat ≤ 0x9f) ∧
        (a.toNat = 0xf4 → b.toNat ≤ 0x8f) := by
  rw [within_iff]
  unfold lowest highest
  simp only [← UInt8.toNat_inj, apply_ite UInt8.toNat, UInt8.reduceToNat]
  grind

/-- A number below 256 as a byte. -/
theorem toNat_ofNat {n : Nat} (h : n < 256) : (UInt8.ofNat n).toNat = n := by
  rw [UInt8.toNat_ofNat']
  exact Nat.mod_eq_of_lt h

theorem spells_encodeChar (c : Char) : Spells c.toNat (String.utf8EncodeChar c) := by
  have hvalid : c.toNat < 0xd800 ∨ (0xdfff < c.toNat ∧ c.toNat < 0x110000) := c.valid
  have hcode : ∀ {n : Nat} {bytes : List UInt8}, Spells n bytes → n = c.toNat →
      Spells c.toNat bytes := fun h hn => hn ▸ h
  unfold String.utf8EncodeChar
  change Spells c.toNat (if c.toNat ≤ 0x7f then [UInt8.ofNat c.toNat] else
    if c.toNat ≤ 0x7ff then
      [UInt8.ofNat (c.toNat / 64 % 32 + 0xc0), UInt8.ofNat (c.toNat % 64 + 0x80)] else
    if c.toNat ≤ 0xffff then
      [UInt8.ofNat (c.toNat / 4096 % 16 + 0xe0), UInt8.ofNat (c.toNat / 64 % 64 + 0x80),
        UInt8.ofNat (c.toNat % 64 + 0x80)] else
      [UInt8.ofNat (c.toNat / 262144 % 8 + 0xf0), UInt8.ofNat (c.toNat / 4096 % 64 + 0x80),
        UInt8.ofNat (c.toNat / 64 % 64 + 0x80), UInt8.ofNat (c.toNat % 64 + 0x80)])
  split
  · have ha := toNat_ofNat (n := c.toNat) (by omega)
    exact hcode (.one (by omega)) ha
  split
  · have ha := toNat_ofNat (n := c.toNat / 64 % 32 + 0xc0) (by omega)
    have hb := toNat_ofNat (n := c.toNat % 64 + 0x80) (by omega)
    refine hcode (.two ?_ ?_ (within_second_iff.mpr ?_)) ?_
    all_goals omega
  split
  · have ha := toNat_ofNat (n := c.toNat / 4096 % 16 + 0xe0) (by omega)
    have hb := toNat_ofNat (n := c.toNat / 64 % 64 + 0x80) (by omega)
    have hc := toNat_ofNat (n := c.toNat % 64 + 0x80) (by omega)
    refine hcode (.three ?_ ?_ (within_second_iff.mpr ?_) (isTail_iff.mpr ?_)) ?_
    all_goals omega
  · have ha := toNat_ofNat (n := c.toNat / 262144 % 8 + 0xf0) (by omega)
    have hb := toNat_ofNat (n := c.toNat / 4096 % 64 + 0x80) (by omega)
    have hc := toNat_ofNat (n := c.toNat / 64 % 64 + 0x80) (by omega)
    have hd := toNat_ofNat (n := c.toNat % 64 + 0x80) (by omega)
    refine hcode (.four ?_ ?_ (within_second_iff.mpr ?_) (isTail_iff.mpr ?_)
      (isTail_iff.mpr ?_)) ?_
    all_goals omega

theorem ofNat_toNat_eq {b : UInt8} {n : Nat} (h : n = b.toNat) : UInt8.ofNat n = b := by
  rw [h, UInt8.ofNat_toNat]

/-- Only one sequence spells a character. -/
theorem exists_encodeChar_of_spells (h : Spells code bytes) :
    ∃ c, Char.ofNat code = c ∧ String.utf8EncodeChar c = bytes := by
  refine ⟨_, rfl, ?_⟩
  have htoNat : code < 0xd800 ∨ (0xdfff < code ∧ code < 0x110000) →
      (Char.ofNat code).val.toNat = code := by
    intro hvalid
    rw [Char.ofNat, dif_pos hvalid]
    rfl
  unfold String.utf8EncodeChar
  cases h with
  | one ha =>
    rw [htoNat (by omega), if_pos (by omega), UInt8.ofNat_toNat]
  | two ha ha' hb =>
    rw [within_second_iff] at hb
    rw [htoNat (by omega), if_neg (by omega), if_pos (by omega), ofNat_toNat_eq, ofNat_toNat_eq]
    all_goals omega
  | three ha ha' hb hc =>
    rw [within_second_iff] at hb
    rw [isTail_iff] at hc
    rw [htoNat (by omega), if_neg (by omega), if_neg (by omega), if_pos (by omega), ofNat_toNat_eq,
      ofNat_toNat_eq, ofNat_toNat_eq]
    all_goals omega
  | four ha ha' hb hc hd =>
    rw [within_second_iff] at hb
    rw [isTail_iff] at hc hd
    rw [htoNat (by omega), if_neg (by omega), if_neg (by omega), if_neg (by omega), ofNat_toNat_eq,
      ofNat_toNat_eq, ofNat_toNat_eq, ofNat_toNat_eq]
    all_goals omega

/-! ## 4. Texts -/

/-- The bytes of a text. -/
def encode (text : List Char) : List UInt8 :=
  text.flatMap String.utf8EncodeChar

theorem units_encode (text : List Char) : units (encode text) = text.map some := by
  induction text with
  | nil => rfl
  | cons c text ih =>
    unfold units at ih ⊢
    rw [encode, List.flatMap_cons, run_append_of_spells (spells_encodeChar c), Char.ofNat_toNat]
    exact congrArg (some c :: ·) ih

/-- Bytes that are read without an error are those of a text. -/
theorem exists_encode_of_units (h : none ∉ units bytes) : ∃ text, bytes = encode text := by
  induction hn : bytes.length using Nat.strongRecOn generalizing bytes with
  | ind n ih =>
    cases bytes with
    | nil => exact ⟨[], rfl⟩
    | cons a rest =>
      obtain ⟨code, head, tail, heq, hne, hspells⟩ := exists_spells_of_run h
      obtain ⟨c, hc, hbytes⟩ := exists_encodeChar_of_spells hspells
      rw [units, heq, run_append_of_spells hspells] at h
      have hlength := congrArg List.length heq
      rw [List.length_append] at hlength
      have hpos := List.length_pos_iff.mpr hne
      obtain ⟨text, htext⟩ :=
        ih tail.length (by omega) (fun hnone => h (List.mem_cons_of_mem _ hnone)) rfl
      refine ⟨c :: text, ?_⟩
      rw [heq, htext, ← hbytes]
      rfl

theorem mapM_id_eq_some_iff {found : List (Option Char)} :
    found.mapM id = some text ↔ found = text.map some := by
  induction found generalizing text with
  | nil => cases text <;> simp
  | cons x found ih =>
    cases x with
    | none => cases text <;> simp
    | some c =>
      cases hrest : found.mapM id with
      | none => cases text <;> simp [hrest, ← ih]
      | some rest => cases text <;> simp [hrest, ← ih]

/-- The strict reading takes the bytes of texts and no others. -/
theorem decode?_eq_some_iff : decode? bytes = some text ↔ bytes = encode text := by
  unfold decode?
  rw [mapM_id_eq_some_iff]
  apply Iff.intro
  · intro h
    have hnone : none ∉ units bytes := by
      rw [h]
      simp
    obtain ⟨text', rfl⟩ := exists_encode_of_units hnone
    rw [units_encode] at h
    rw [(List.map_inj_right fun _ _ => Option.some.inj).mp h]
  · rintro rfl
    exact units_encode text

/-- Where the strict reading takes the bytes, the lossy one reads the same text. -/
theorem decodeLossy_of_decode? (h : decode? bytes = some text) : decodeLossy bytes = text := by
  unfold decode? at h
  unfold decodeLossy
  rw [mapM_id_eq_some_iff.mp h, List.map_map]
  exact List.map_id text

theorem data_toUTF8 (s : String) : s.toUTF8.data.toList = encode s.toList := by
  rw [String.toUTF8_eq_toByteArray, ← String.utf8Encode_toList]
  exact List.toList_data_toByteArray

theorem decode?_toUTF8 (s : String) : decode? s.toUTF8.data.toList = some s.toList := by
  rw [decode?_eq_some_iff, data_toUTF8]

theorem isSome_decode?_iff {content : ByteArray} :
    (decode? content.data.toList).isSome = true ↔ content.IsValidUTF8 := by
  rw [Option.isSome_iff_exists]
  apply Iff.intro
  · rintro ⟨text, htext⟩
    refine ⟨text, ByteArray.ext (Array.toList_inj.mp ?_)⟩
    rw [decode?_eq_some_iff.mp htext]
    exact (List.toList_data_toByteArray).symm
  · rintro ⟨text, rfl⟩
    refine ⟨text, decode?_eq_some_iff.mpr ?_⟩
    exact List.toList_data_toByteArray

end RuleLens.Text.Utf8
