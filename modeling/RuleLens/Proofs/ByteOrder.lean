import RuleLens.Proofs.Utf8

/-!
# Texts in the order of their bytes

UTF-8 keeps the order of characters: of two texts, the one with the smaller character at the first
difference has the smaller byte at the first difference of the bytes.
-/

namespace RuleLens.Text

namespace Utf8

variable {m n : Nat} {bytes other : List UInt8} {s t : List Char}

/-- The first difference of two byte strings lies inside both, and the first one has the smaller
byte there. -/
def DiffersBelow (bytes other : List UInt8) : Prop :=
  ∃ front x rest y rest', bytes = front ++ x :: rest ∧ other = front ++ y :: rest' ∧ x < y

theorem differsBelow_of_head {x y : UInt8} (h : x.toNat < y.toNat) (rest rest' : List UInt8) :
    DiffersBelow (x :: rest) (y :: rest') :=
  ⟨[], x, rest, y, rest', rfl, rfl, UInt8.lt_iff_toNat_lt.mpr h⟩

theorem DiffersBelow.cons (x : UInt8) (h : DiffersBelow bytes other) :
    DiffersBelow (x :: bytes) (x :: other) := by
  obtain ⟨front, y, rest, z, rest', rfl, rfl, hlt⟩ := h
  exact ⟨x :: front, y, rest, z, rest', rfl, rfl, hlt⟩

theorem DiffersBelow.append_lt (h : DiffersBelow bytes other) (rest rest' : List UInt8) :
    bytes ++ rest < other ++ rest' := by
  obtain ⟨front, x, r, y, r', rfl, rfl, hlt⟩ := h
  rw [List.append_assoc, List.append_assoc]
  induction front with
  | nil => exact List.cons_lt_cons_iff.mpr (.inl hlt)
  | cons z front ih => exact List.cons_lt_cons_iff.mpr (.inr ⟨rfl, ih⟩)

theorem differsBelow_cons {a b : UInt8} (hle : a.toNat ≤ b.toNat)
    (h : a.toNat = b.toNat → DiffersBelow bytes other) :
    DiffersBelow (a :: bytes) (b :: other) := by
  rcases Nat.lt_or_eq_of_le hle with hlt | heq
  · exact differsBelow_of_head hlt _ _
  · rw [UInt8.toNat_inj.mp heq]
    exact (h heq).cons b

/-- What can be spelled with a number of bytes. -/
theorem bounds_of_spells (h : Spells n bytes) :
    (bytes.length = 1 ∧ n < 0x80) ∨ (bytes.length = 2 ∧ 0x80 ≤ n ∧ n < 0x800) ∨
      (bytes.length = 3 ∧ 0x800 ≤ n ∧ n < 0x10000) ∨ (bytes.length = 4 ∧ 0x10000 ≤ n) := by
  cases h with
  | one ha => exact .inl ⟨rfl, ha⟩
  | two ha ha' hb => exact .inr (.inl ⟨rfl, by omega⟩)
  | three ha ha' hb hc =>
    obtain ⟨hb, hlow, -⟩ := within_second_iff.mp hb
    exact .inr (.inr (.inl ⟨rfl, by omega⟩))
  | four ha ha' hb hc hd =>
    obtain ⟨hb, -, hlow, -⟩ := within_second_iff.mp hb
    exact .inr (.inr (.inr ⟨rfl, by omega⟩))

theorem length_le_of_spells (h : Spells m bytes) (h' : Spells n other) (hlt : m < n) :
    bytes.length ≤ other.length := by
  have hbounds := bounds_of_spells h
  have hbounds' := bounds_of_spells h'
  omega

/-- The bytes of a character are the digits of its number, the first one with the most weight. -/
theorem differsBelow_of_spells (h : Spells m bytes) (h' : Spells n other) (hlt : m < n) :
    DiffersBelow bytes other := by
  have hlength := length_le_of_spells h h' hlt
  cases h with
  | one ha =>
    cases h' <;> exact differsBelow_cons (by omega) fun heq => by omega
  | two ha ha' hb =>
    have hb := (within_second_iff.mp hb).1
    cases h' with
    | one hx => simp at hlength
    | two hx hx' hy =>
      have hy := (within_second_iff.mp hy).1
      exact differsBelow_cons (by omega) fun ha => differsBelow_cons (by omega) fun hb => by omega
    | three hx => exact differsBelow_of_head (by omega) _ _
    | four hx => exact differsBelow_of_head (by omega) _ _
  | three ha ha' hb hc =>
    have hb := (within_second_iff.mp hb).1
    have hc := isTail_iff.mp hc
    cases h' with
    | one hx => simp at hlength
    | two hx hx' hy => simp at hlength
    | three hx hx' hy hz =>
      have hy := (within_second_iff.mp hy).1
      have hz := isTail_iff.mp hz
      exact differsBelow_cons (by omega) fun ha => differsBelow_cons (by omega) fun hb =>
        differsBelow_cons (by omega) fun hc => by omega
    | four hx => exact differsBelow_of_head (by omega) _ _
  | four ha ha' hb hc hd =>
    have hb := (within_second_iff.mp hb).1
    have hc := isTail_iff.mp hc
    have hd := isTail_iff.mp hd
    cases h' with
    | one hx => simp at hlength
    | two hx hx' hy => simp at hlength
    | three hx hx' hy hz => simp at hlength
    | four hx hx' hy hz hu =>
      have hy := (within_second_iff.mp hy).1
      have hz := isTail_iff.mp hz
      have hu := isTail_iff.mp hu
      exact differsBelow_cons (by omega) fun ha => differsBelow_cons (by omega) fun hb =>
        differsBelow_cons (by omega) fun hc => differsBelow_cons (by omega) fun hd => by omega

theorem encode_cons (c : Char) (s : List Char) :
    encode (c :: s) = String.utf8EncodeChar c ++ encode s :=
  List.flatMap_cons

theorem encode_lt_encode (h : s < t) : encode s < encode t := by
  induction s generalizing t with
  | nil =>
    cases t with
    | nil => exact absurd h (List.lt_irrefl [])
    | cons d t =>
      obtain ⟨b, rest, hbytes⟩ := List.exists_cons_of_ne_nil (String.utf8EncodeChar_ne_nil (c := d))
      rw [encode_cons, hbytes]
      exact List.nil_lt_cons b _
  | cons c s ih =>
    cases t with
    | nil => exact absurd h (List.not_lt_nil _)
    | cons d t =>
      rw [encode_cons, encode_cons]
      rcases List.cons_lt_cons_iff.mp h with hlt | ⟨rfl, hlt⟩
      · exact (differsBelow_of_spells (spells_encodeChar c) (spells_encodeChar d) hlt).append_lt _ _
      · exact List.append_left_lt (ih hlt)

end Utf8

/-- The bytes of `s` come before those of `t`. -/
def ByteLT (s t : String) : Prop :=
  s.toUTF8.data.toList < t.toUTF8.data.toList

theorem byteLT_iff {s t : String} : ByteLT s t ↔ s < t := by
  unfold ByteLT
  rw [Utf8.data_toUTF8, Utf8.data_toUTF8, String.lt_iff]
  refine ⟨fun h => Classical.byContradiction fun hnot => ?_, Utf8.encode_lt_encode⟩
  by_cases hgt : t.toList < s.toList
  · exact List.lt_asymm h (Utf8.encode_lt_encode hgt)
  · rw [Std.Trichotomous.trichotomous _ _ hnot hgt] at h
    exact List.lt_irrefl _ h

theorem byteLT_iff_compare {s t : String} : ByteLT s t ↔ compare s t = .lt := by
  rw [byteLT_iff]
  exact compareOfLessAndEq_eq_lt.symm

end RuleLens.Text
