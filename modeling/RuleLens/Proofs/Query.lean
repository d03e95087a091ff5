import RuleLens.Query

/-!
# Results of queries

What a query comes to does not depend on its token: the token only decides whether the query gets
that far.  `Settles` says so, and the rules below give the result of a query from those of its
parts, so that no later proof looks at a token.
-/

namespace RuleLens.Query

variable {α β : Type}

/-- The query comes to the result `r`: left alone it ends there with its token unchanged, and under
any other token it is cancelled or ends there too. -/
structure Settles (q : Query α) (r : Except AnalysisError α) : Prop where
  never : q.run .never = r.map (·, .never)
  cancelled_or (token : Token) :
    q.run token = .error .cancelled ∨ ∃ rest, q.run token = r.map (·, rest)

/-! ## 1. Answers -/

theorem Settles.answer_never {q : Query α} {r : Except AnalysisError α} (h : Settles q r) :
    q.answer .never = r := by
  unfold answer
  rw [h.never]
  cases r <;> rfl

/-- Under any token, the answer is the result unless the query was cancelled. -/
theorem Settles.answer {q : Query α} {r : Except AnalysisError α} (h : Settles q r)
    (token : Token) : q.answer token = .error .cancelled ∨ q.answer token = r := by
  unfold Query.answer
  rcases h.cancelled_or token with hrun | ⟨rest, hrun⟩
  · left
    rw [hrun]
    rfl
  · right
    rw [hrun]
    cases r <;> rfl

theorem Settles.eq_of_answer {q : Query α} {r : Except AnalysisError α} (h : Settles q r)
    {token : Token} {a : α} (ha : q.answer token = .ok a) : r = .ok a := by
  rcases h.answer token with hc | hr
  · rw [hc] at ha
    cases ha
  · rw [← hr, ha]

/-! ## 2. Steps -/

theorem settles_pure (a : α) : Settles (pure a : Query α) (.ok a) :=
  ⟨rfl, fun token => .inr ⟨token, rfl⟩⟩

theorem settles_throw (e : AnalysisError) : Settles (throw e : Query α) (.error e) :=
  ⟨rfl, fun token => .inr ⟨token, rfl⟩⟩

theorem settles_poll : Settles poll (.ok ()) := by
  refine ⟨rfl, fun token => ?_⟩
  rcases token with ⟨remaining⟩
  match remaining with
  | none => exact .inr ⟨_, rfl⟩
  | some 0 => exact .inl rfl
  | some (k + 1) => exact .inr ⟨_, rfl⟩

theorem Settles.bind {m : Query α} {f : α → Query β} {a : α} {r : Except AnalysisError β}
    (hm : Settles m (.ok a)) (hf : Settles (f a) r) : Settles (m >>= f) r := by
  constructor
  · rw [StateT.run_bind, hm.never]
    exact hf.never
  · intro token
    rw [StateT.run_bind]
    rcases hm.cancelled_or token with hrun | ⟨rest, hrun⟩
    · left
      rw [hrun]
      rfl
    · -- the second part starts with what the first one left of the token
      rw [hrun]
      exact hf.cancelled_or rest

theorem Settles.bind_error {m : Query α} {f : α → Query β} {e : AnalysisError}
    (hm : Settles m (.error e)) : Settles (m >>= f) (.error e) := by
  constructor
  · rw [StateT.run_bind, hm.never]
    rfl
  · intro token
    rw [StateT.run_bind]
    rcases hm.cancelled_or token with hrun | ⟨rest, hrun⟩
    · left
      rw [hrun]
      rfl
    · right
      refine ⟨rest, ?_⟩
      rw [hrun]
      rfl

theorem settles_reserve [Automaton.Engine] (size : Nat) :
    Settles (reserve size) (if size ≤ Automaton.limit then .ok () else .error .searchTooLarge) := by
  unfold reserve
  split
  · exact settles_pure ()
  · exact settles_throw _

/-! ## 3. Loops over lines -/

theorem settles_firstOf (f : Line → Nat → Option α) (lines : List (Line × Nat)) :
    Settles (firstOf f lines) (.ok (lines.findSome? fun x => f x.1 x.2)) := by
  induction lines with
  | nil => exact settles_pure none
  | cons x rest ih =>
    rcases x with ⟨line, n⟩
    refine settles_poll.bind ?_
    cases hf : f line n with
    | some a =>
      rw [List.findSome?_cons_of_isSome (by rw [hf]; rfl), hf]
      exact settles_pure (some a)
    | none =>
      rw [List.findSome?_cons_of_isNone (by rw [hf]; rfl)]
      exact ih

theorem settles_allFrom (f : Line → Nat → List α) (found : Array α) (lines : List (Line × Nat)) :
    Settles (allFrom f found lines) (.ok (found.toList ++ lines.flatMap fun x => f x.1 x.2)) := by
  induction lines generalizing found with
  | nil =>
    rw [List.flatMap_nil, List.append_nil]
    exact settles_pure _
  | cons x rest ih =>
    rcases x with ⟨line, n⟩
    -- what this line adds stands in front of all that the rest adds
    have hrest := ih (found ++ f line n)
    rw [Array.toList_appendList, List.append_assoc] at hrest
    exact settles_poll.bind hrest

theorem settles_allOf (f : Line → Nat → List α) (lines : List (Line × Nat)) :
    Settles (allOf f lines) (.ok (lines.flatMap fun x => f x.1 x.2)) := by
  have h := settles_allFrom f #[] lines
  rw [Array.toList_empty, List.nil_append] at h
  exact h

end RuleLens.Query
