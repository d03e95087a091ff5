import Mathlib.Data.List.Nodup
import RuleLens.Module.Completion
import RuleLens.Proofs.ByteOrder
import RuleLens.Proofs.Text

/-!
# Members behind a chain

A chain of members is read back from the text in front of the cursor, whatever stands before it and
between its brackets.  It leads to at most one structure, since no structure has two members of one
name, and what may follow are the members of that structure in the order of the bytes of their
names.
-/

namespace RuleLens.Completion

variable {c : Char} {front word : Line} {path : List Line} {depth : Nat} {name : String}
  {kind : MemberKind} {members inner target : List (String × Member)} {doc : Document}
  {p : Position}

/-! ## 1. The chain in front of the cursor -/

/-- A member of a chain: its name and what stands in the brackets behind it. -/
structure Segment where
  name : Line
  subscripts : List Line
  name_ident : name.all isIdentChar = true
  subscripts_ident : subscripts.all (·.all isIdentChar) = true

namespace Segment

def brackets (s : Segment) : Line :=
  s.subscripts.flatMap fun x => '[' :: x ++ [']']

def toChars (s : Segment) : Line :=
  s.name ++ s.brackets

end Segment

/-- The members with a dot behind each of them, and the word that is being typed. -/
def chain (segments : List Segment) (word : Line) : Line :=
  (segments.map Segment.toChars).flatMap (· ++ ['.']) ++ word

theorem isChainChar_of_isIdentChar (h : isIdentChar c = true) : isChainChar c = true := by
  simp only [isChainChar, h, Bool.true_or]

theorem isIdentChar_or_bracket (s : Segment) (hc : c ∈ s.toChars) :
    isIdentChar c = true ∨ c = '[' ∨ c = ']' := by
  rcases List.mem_append.mp hc with hc | hc
  · exact .inl (List.all_eq_true.mp s.name_ident c hc)
  · obtain ⟨x, hx, hc⟩ := List.mem_flatMap.mp hc
    rcases List.mem_append.mp hc with hc | hc
    · rcases List.mem_cons.mp hc with rfl | hc
      · exact .inr (.inl rfl)
      · exact .inl (List.all_eq_true.mp (List.all_eq_true.mp s.subscripts_ident x hx) c hc)
    · exact .inr (.inr (List.mem_singleton.mp hc))

theorem dot_not_mem_toChars (s : Segment) : '.' ∉ s.toChars := by
  intro hc
  rcases isIdentChar_or_bracket s hc with h | h | h <;> exact absurd h (by decide)

/-- A word of identifier characters holds no other character. -/
theorem not_mem_of_ident (hword : word.all isIdentChar = true) (hc : isIdentChar c = false) :
    c ∉ word := by
  intro hmem
  rw [List.all_eq_true.mp hword c hmem] at hc
  cases hc

/-- The subscripts start at the first bracket. -/
theorem takeWhile_toChars (s : Segment) : s.toChars.takeWhile (· != '[') = s.name := by
  apply Text.takeWhile_append_of_head?
  · intro c hc
    have hne : c ≠ '[' := by
      rintro rfl
      exact not_mem_of_ident s.name_ident (by decide) hc
    exact bne_iff_ne.mpr hne
  · intro c hc
    cases hsubscripts : s.subscripts with
    | nil =>
      rw [Segment.brackets, hsubscripts] at hc
      cases hc
    | cons x rest =>
      rw [Segment.brackets, hsubscripts] at hc
      cases hc
      decide

theorem isChainChar_of_mem_chain {segments : List Segment}
    (hword : word.all isIdentChar = true) (hc : c ∈ chain segments word) :
    isChainChar c = true := by
  rcases List.mem_append.mp hc with hc | hc
  · obtain ⟨piece, hpiece, hc⟩ := List.mem_flatMap.mp hc
    obtain ⟨s, -, rfl⟩ := List.mem_map.mp hpiece
    rcases List.mem_append.mp hc with hc | hc
    · rcases isIdentChar_or_bracket s hc with h | rfl | rfl
      · exact isChainChar_of_isIdentChar h
      · decide
      · decide
    · rw [List.mem_singleton.mp hc]
      decide
  · exact isChainChar_of_isIdentChar (List.all_eq_true.mp hword c hc)

/-- The chain is the longest end of the text that may be one. -/
theorem accessPath_append_chain {segments : List Segment}
    (hfront : ∀ c, front.getLast? = some c → isChainChar c = false)
    (hword : word.all isIdentChar = true) :
    accessPath (front ++ chain segments word) = segments.map Segment.name ++ [word] := by
  have hchain : ((front ++ chain segments word).reverse.takeWhile isChainChar).reverse =
      chain segments word := by
    rw [List.reverse_append, Text.takeWhile_append_of_head?, List.reverse_reverse]
    · intro c hc
      exact isChainChar_of_mem_chain hword (List.mem_reverse.mp hc)
    · rw [List.head?_reverse]
      exact hfront
  have hsplit : (chain segments word).splitOn '.' = segments.map Segment.toChars ++ [word] := by
    apply Text.splitOn_flatMap
    · intro piece hpiece
      obtain ⟨s, -, rfl⟩ := List.mem_map.mp hpiece
      exact dot_not_mem_toChars s
    · exact not_mem_of_ident hword (by decide)
  -- the word is a member without subscripts
  have hlast : word.takeWhile (· != '[') = word := by
    have h := takeWhile_toChars ⟨word, [], hword, rfl⟩
    rwa [Segment.toChars, Segment.brackets, List.flatMap_nil, List.append_nil] at h
  rw [accessPath, hchain, hsplit, List.map_append, List.map_map, List.map_singleton, hlast]
  congr 1
  exact List.map_congr_left fun s _ => takeWhile_toChars s

/-! ## 2. The structure that a path leads to -/

/-- The path leads from a structure to another one, through a member structure for each name. -/
inductive LeadsTo : List (String × Member) → List Line → List (String × Member) → Prop
  | here {members : List (String × Member)} : LeadsTo members [] members
  | step {members inner target : List (String × Member)} {name : Line} {rest : List Line}
      (hmember : (String.ofList name, .nested inner) ∈ members)
      (hrest : LeadsTo inner rest target) : LeadsTo members (name :: rest) target

/-- No structure has two members of one name. -/
inductive Distinct : List (String × Member) → Prop
  | intro {members : List (String × Member)} (names : (members.map (·.1)).Nodup)
      (nested : ∀ name inner, (name, .nested inner) ∈ members → Distinct inner) : Distinct members

theorem Distinct.names (h : Distinct members) : (members.map (·.1)).Nodup := by
  cases h with
  | intro names nested => exact names

theorem Distinct.nested (h : Distinct members) (hmember : (name, .nested inner) ∈ members) :
    Distinct inner := by
  cases h with
  | intro names nested => exact nested name inner hmember

theorem Distinct.of_leadsTo (h : Distinct members) (hpath : LeadsTo members path target) :
    Distinct target := by
  induction hpath with
  | here => exact h
  | step hmember hrest ih => exact ih (h.nested hmember)

theorem lookup_eq_some_iff {m : Member} (hnames : (members.map (·.1)).Nodup) :
    members.lookup name = some m ↔ (name, m) ∈ members := by
  rw [List.lookup_eq_some_iff]
  constructor
  · rintro ⟨before, behind, rfl, -⟩
    exact List.mem_append_right before List.mem_cons_self
  · intro h
    obtain ⟨before, behind, rfl⟩ := List.append_of_mem h
    refine ⟨before, behind, rfl, fun other hother => bne_iff_ne.mpr ?_⟩
    rw [List.map_append, List.map_cons] at hnames
    exact ((List.nodup_append.mp hnames).2.2 _ (List.mem_map_of_mem hother) _
      List.mem_cons_self).symm

theorem follow?_eq_some_iff (h : Distinct members) :
    follow? members path = some target ↔ LeadsTo members path target := by
  induction path generalizing members with
  | nil =>
    rw [follow?, Option.some_inj]
    constructor
    · rintro rfl
      exact .here
    · intro hpath
      cases hpath
      rfl
  | cons first rest ih =>
    rw [follow?]
    constructor
    · intro hfollow
      split at hfollow
      · rename_i inner hlookup
        have hmember := (lookup_eq_some_iff h.names).mp hlookup
        exact .step hmember ((ih (h.nested hmember)).mp hfollow)
      · cases hfollow
    · intro hpath
      cases hpath with
      | step hmember hrest =>
        rw [(lookup_eq_some_iff h.names).mpr hmember]
        exact (ih (h.nested hmember)).mpr hrest

/-- The bytes of a name as the digits of a number, by which names are told apart. -/
def code (name : String) : Nat :=
  name.toUTF8.data.toList.foldl (fun n b => 256 * n + b.toNat) 0

/-- A test for structures of at most `depth` levels. -/
def isDistinct : Nat → List (String × Member) → Bool
  | 0, _ => false
  | depth + 1, members =>
    (members.map (code ·.1)).Nodup && members.all fun m =>
      match m.2 with
      | .nested inner => isDistinct depth inner
      | _ => true

theorem distinct_of_isDistinct (depth : Nat) (h : isDistinct depth members = true) :
    Distinct members := by
  induction depth generalizing members with
  | zero => cases h
  | succ depth ih =>
    rw [isDistinct, Bool.and_eq_true, decide_eq_true_eq, List.all_eq_true] at h
    refine .intro ?_ fun name inner hmember => ih (h.2 _ hmember)
    apply List.Nodup.of_map code
    rw [List.map_map]
    exact h.1

theorem distinct_modules : Distinct Schema.modules :=
  distinct_of_isDistinct 4 (by decide +kernel)

/-! ## 3. The members of a structure -/

theorem mem_listing :
    (name, kind) ∈ listing members ↔ ∃ m, (name, m) ∈ members ∧ m.kind = kind := by
  rw [listing, List.mem_mergeSort, List.mem_map]
  constructor
  · rintro ⟨⟨_, m⟩, hm, heq⟩
    cases heq
    exact ⟨m, hm, rfl⟩
  · rintro ⟨m, hm, rfl⟩
    exact ⟨(name, m), hm, rfl⟩

/-- What is offered as a structure is one. -/
theorem name_eq_class_iff (h : (members.map (·.1)).Nodup) (hitem : (name, kind) ∈ listing members) :
    kind.name = "class" ↔ ∃ inner, (name, .nested inner) ∈ members := by
  obtain ⟨m, hm, rfl⟩ := mem_listing.mp hitem
  constructor
  · intro hclass
    cases m with
    | nested inner => exact ⟨inner, hm⟩
    | enum => exact absurd hclass (by decide)
    | property => exact absurd hclass (by decide)
    | method => exact absurd hclass (by decide)
  · rintro ⟨inner, hinner⟩
    -- there is no other member of that name
    have hlookup := (lookup_eq_some_iff h).mpr hm
    rw [(lookup_eq_some_iff h).mpr hinner] at hlookup
    cases hlookup
    rfl

theorem pairwise_listing (h : (members.map (·.1)).Nodup) :
    (listing members).Pairwise fun a b => Text.ByteLT a.1 b.1 := by
  have hsorted : (listing members).Pairwise fun a b => decide (a.1 ≤ b.1) = true := by
    apply List.pairwise_mergeSort
    · intro a b c hab hbc
      simp only [decide_eq_true_eq] at hab hbc ⊢
      exact String.le_trans hab hbc
    · intro a b
      simp only [Bool.or_eq_true, decide_eq_true_eq]
      exact String.le_total a.1 b.1
  have hnames : ((listing members).map (·.1)).Nodup := by
    have hperm := (List.mergeSort_perm (members.map fun m => (m.1, m.2.kind))
      fun a b => decide (a.1 ≤ b.1)).map (·.1)
    rw [List.map_map] at hperm
    exact hperm.nodup_iff.mpr h
  refine (hsorted.and (List.pairwise_map.mp hnames)).imp ?_
  rintro a b ⟨hle, hne⟩
  rw [Text.byteLT_iff]
  exact String.not_le.mp fun hge => hne (String.le_antisymm (of_decide_eq_true hle) hge)

/-! ## 4. Completion -/

theorem complete_eq {text : Line} (hline : doc.line? p.line = some text) :
    complete doc p false = some (membersAt (accessPath (text.take p.character))) := by
  rw [complete, Document.textBefore?, hline]
  rfl

theorem complete_imported_eq {text root : Line} (hline : doc.line? p.line = some text)
    (hroot : (accessPath (text.take p.character)).head? = some root) :
    complete doc p true =
      if String.ofList root ∈ imports doc then complete doc p false else none := by
  rw [complete_eq hline, complete, Document.textBefore?, hline]
  simp only [Option.map_some, Option.bind_eq_bind, Option.bind_some, hroot, if_true,
    List.contains_iff_mem]

theorem membersAt_append_singleton (path : List Line) (word : Line) :
    membersAt (path ++ [word]) = ((follow? Schema.modules path).map listing).getD [] := by
  rw [membersAt, List.dropLast_concat, if_neg (by simp)]

/-- Behind a chain stand the members of the structure that its names lead to, by the bytes of their
names, and nothing if they lead to none.  The word that is being typed does not narrow them.  If
imports are required, the first word has to be an imported module. -/
theorem complete_of_chain {text : Line} {segments : List Segment}
    (hline : doc.line? p.line = some text)
    (htext : text.take p.character = front ++ chain segments word)
    (hfront : ∀ c, front.getLast? = some c → isIdentChar c = false ∧ c ∉ ['.', '[', ']'])
    (hword : word.all isIdentChar = true) :
    accessPath (text.take p.character) = segments.map Segment.name ++ [word] ∧
      ∃ items, complete doc p false = some items ∧
        (∀ members, LeadsTo Schema.modules (segments.map Segment.name) members →
          (∀ name kind, (name, kind) ∈ items ↔ ∃ m, (name, m) ∈ members ∧ m.kind = kind) ∧
          (∀ name kind, (name, kind) ∈ items →
            (kind.name = "class" ↔ ∃ inner, (name, .nested inner) ∈ members)) ∧
          items.Pairwise fun a b => Text.ByteLT a.1 b.1) ∧
        ((∀ members, ¬ LeadsTo Schema.modules (segments.map Segment.name) members) → items = []) ∧
        ∀ root, (segments.map Segment.name ++ [word]).head? = some root →
          complete doc p true = if String.ofList root ∈ imports doc then some items else none := by
  have hpath : accessPath (text.take p.character) = segments.map Segment.name ++ [word] := by
    rw [htext]
    apply accessPath_append_chain _ hword
    intro c hc
    obtain ⟨hident, hother⟩ := hfront c hc
    simp only [List.mem_cons, List.not_mem_nil, or_false, not_or] at hother
    simp only [isChainChar, hident, Bool.false_or, Bool.or_eq_false_iff, beq_eq_false_iff_ne]
    exact ⟨⟨hother.1, hother.2.1⟩, hother.2.2⟩
  have hitems := complete_eq hline
  rw [hpath, membersAt_append_singleton] at hitems
  refine ⟨hpath, _, hitems, ?_, ?_, ?_⟩
  · intro members hmembers
    have hnames := (distinct_modules.of_leadsTo hmembers).names
    rw [(follow?_eq_some_iff distinct_modules).mpr hmembers]
    exact ⟨fun name kind => mem_listing, fun name kind => name_eq_class_iff hnames,
      pairwise_listing hnames⟩
  · intro hnowhere
    have hnone : follow? Schema.modules (segments.map Segment.name) = none := by
      apply Option.eq_none_iff_forall_ne_some.mpr
      intro members hfollow
      exact hnowhere members ((follow?_eq_some_iff distinct_modules).mp hfollow)
    rw [hnone]
    rfl
  · intro root hroot
    rw [complete_imported_eq hline (by rw [hpath, hroot]), hitems]

theorem complete_of_chain_sections :
    (∃ items, complete (.ofString "import \"pe\"\n  (pe.sections[0].na") ⟨1, 20⟩ true = some items ∧
      ("raw_data_size", .property) ∈ items ∧ items.Pairwise fun a b => Text.ByteLT a.1 b.1) ∧
    complete (.ofString "# elf.nosuch[x][].") ⟨0, 18⟩ false = some [] ∧
    complete (.ofString "# elf.nosuch[x][].") ⟨0, 18⟩ true = none := by
  refine ⟨?_, ?_⟩
  · let p : Position := ⟨1, 20⟩
    have hline : (Document.ofString "import \"pe\"\n  (pe.sections[0].na").line? p.line =
        some "  (pe.sections[0].na".toList := rfl
    have htext : "  (pe.sections[0].na".toList.take p.character =
        "  (".toList ++ chain [⟨"pe".toList, [], rfl, rfl⟩,
          ⟨"sections".toList, ["0".toList], rfl, rfl⟩] "na".toList := rfl
    obtain ⟨-, items, hitems, hmembers, -, himported⟩ :=
      complete_of_chain hline htext (fun c hc => by cases hc; decide) rfl
    obtain ⟨hkeys, -, hsorted⟩ :=
      hmembers Schema.peSections ((follow?_eq_some_iff distinct_modules).mp rfl)
    refine ⟨items, ?_, (hkeys _ _).mpr ⟨.property, ?_, rfl⟩, hsorted⟩
    · rw [himported "pe".toList rfl, if_pos (by decide +kernel)]
    · exact List.mem_map_of_mem (by decide)
  · let p : Position := ⟨0, 18⟩
    have hline : (Document.ofString "# elf.nosuch[x][].").line? p.line =
        some "# elf.nosuch[x][].".toList := rfl
    have htext : "# elf.nosuch[x][].".toList.take p.character =
        "# ".toList ++ chain [⟨"elf".toList, [], rfl, rfl⟩,
          ⟨"nosuch".toList, ["x".toList, []], rfl, rfl⟩] [] := rfl
    obtain ⟨-, items, hitems, -, hnowhere, himported⟩ :=
      complete_of_chain hline htext (fun c hc => by cases hc; decide) rfl
    refine ⟨?_, ?_⟩
    · rw [hitems, hnowhere ?_]
      intro members hmembers
      have hfollow := (follow?_eq_some_iff distinct_modules).mpr hmembers
      cases hfollow
    · rw [himported "elf".toList rfl, if_neg (by decide +kernel)]

end RuleLens.Completion
