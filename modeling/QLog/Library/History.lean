import QLog.Library.Transducer

/-! # Histories

What a transducer has put out so far is its history. `runSteps_history` is induction over a run for invariants of
the state together with the history, and `EachAfter` says of a history that every entry was allowed after the
entries before it, the form of an order property. -/

namespace QLog.Library

universe u v w

variable {σ : Type u} {α : Type v} {β : Type w}

/-- What every step that meets a condition keeps, of the state and the history, a run whose steps meet it keeps. -/
theorem runSteps_history_along {step : σ → α → σ × List β} {inv : σ → List β → Prop} {cond : σ → α → Prop}
    (hstep : ∀ s t a, inv s t → cond s a → inv (step s a).1 (t ++ (step s a).2)) (as : List α) {s : σ}
    {t : List β} (h : inv s t) (hcond : Along step cond s as) :
    inv (runSteps step s as).1 (t ++ (runSteps step s as).2) := by
  induction as generalizing s t with
  | nil =>
      rw [runSteps_nil, List.append_nil]
      exact h
  | cons a as ih =>
      rw [runSteps_cons, prepend_fst, prepend_snd, ← List.append_assoc]
      exact ih (hstep s t a h hcond.1) hcond.2

/-- What every step keeps, every run keeps. -/
theorem runSteps_history {step : σ → α → σ × List β} {inv : σ → List β → Prop}
    (hstep : ∀ s t a, inv s t → inv (step s a).1 (t ++ (step s a).2)) (as : List α) {s : σ} {t : List β}
    (h : inv s t) : inv (runSteps step s as).1 (t ++ (runSteps step s as).2) := by
  induction as generalizing s t with
  | nil =>
      rw [runSteps_nil, List.append_nil]
      exact h
  | cons a as ih =>
      rw [runSteps_cons, prepend_fst, prepend_snd, ← List.append_assoc]
      exact ih (hstep s t a h)

/-! ## Order -/

/-- Every entry of a history is one that `ok` allows after the entries before it. -/
def EachAfter (ok : List β → β → Prop) (history : List β) : Prop :=
  ∀ before entry after, history = before ++ entry :: after → ok before entry

section EachAfter

variable {ok : List β → β → Prop}

@[simp] theorem eachAfter_nil : EachAfter ok [] := by
  intro before entry after h
  exact absurd h.symm (List.append_ne_nil_of_right_ne_nil before (List.cons_ne_nil entry after))

theorem eachAfter_append (front back : List β) :
    EachAfter ok (front ++ back) ↔ EachAfter ok front ∧ EachAfter (fun t b => ok (front ++ t) b) back := by
  constructor
  · intro h
    refine ⟨fun before entry after hsplit => ?_, fun before entry after hsplit => ?_⟩
    · refine h before entry (after ++ back) ?_
      rw [hsplit, List.append_assoc, List.cons_append]
    · refine h (front ++ before) entry after ?_
      rw [hsplit, List.append_assoc]
  · rintro ⟨hfront, hback⟩ before entry after hsplit
    rcases List.append_eq_append_iff.mp hsplit with ⟨mid, rfl, hmid⟩ | ⟨mid, rfl, hmid⟩
    · exact hback mid entry after hmid
    · cases mid with
      | nil =>
          have hlast := hback [] entry after hmid.symm
          rwa [List.append_nil, List.append_nil] at hlast
      | cons b mid =>
          obtain ⟨rfl, -⟩ := List.cons.inj hmid
          exact hfront before entry mid rfl

@[simp] theorem eachAfter_cons (b : β) (history : List β) :
    EachAfter ok (b :: history) ↔ ok [] b ∧ EachAfter (fun t c => ok (b :: t) c) history := by
  have hone : EachAfter ok [b] ↔ ok [] b := by
    constructor
    · intro h
      exact h [] b [] rfl
    · intro h before entry after hsplit
      cases before with
      | nil => exact (List.cons.inj hsplit).1 ▸ h
      | cons c before =>
          exact absurd (List.cons.inj hsplit).2.symm
            (List.append_ne_nil_of_right_ne_nil before (List.cons_ne_nil entry after))
  rw [← List.singleton_append, eachAfter_append, hone]
  rfl

end EachAfter

end QLog.Library
