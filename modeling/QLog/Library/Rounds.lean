import Mathlib.Order.Nat

/-! # Loops whose rounds meet outcomes

A loop goes on until its condition fails, and what a round does depends on an outcome that comes from outside. The
outcomes are a sequence without end, since nobody knows beforehand how many the loop will need. -/

namespace QLog.Library

universe u v

variable {σ : Type u} {α : Type v} (step : σ → α → σ)

/-- The state after `n` rounds. -/
def afterRounds (env : Nat → α) (s : σ) : Nat → σ
  | 0 => s
  | n + 1 => step (afterRounds env s n) (env n)

/-- The loop comes to a state in which it is over. -/
def Ends (final : σ → Prop) (env : Nat → α) (s : σ) : Prop := ∃ n, final (afterRounds step env s n)

section Rounds

variable {step} {env : Nat → α} {s : σ} {final : σ → Prop}

@[simp] theorem afterRounds_zero : afterRounds step env s 0 = s := rfl

theorem afterRounds_succ (n : Nat) : afterRounds step env s (n + 1) = step (afterRounds step env s n) (env n) := rfl

/-- Rounds after rounds. -/
theorem afterRounds_add (m n : Nat) :
    afterRounds step env s (m + n) = afterRounds step (fun k => env (m + k)) (afterRounds step env s m) n := by
  induction n with
  | zero => rfl
  | succ n ih => rw [← Nat.add_assoc, afterRounds_succ, afterRounds_succ, ih]

/-- The first round, and those behind it. -/
theorem afterRounds_succ' (n : Nat) :
    afterRounds step env s (n + 1) = afterRounds step (fun k => env (k + 1)) (step s (env 0)) n := by
  rw [Nat.add_comm, afterRounds_add]
  simp only [Nat.add_comm 1]
  rfl

/-- Rounds that change nothing. -/
theorem afterRounds_same {n : Nat} (k : Nat)
    (hsame : ∀ i < k, step (afterRounds step env s n) (env (n + i)) = afterRounds step env s n) :
    afterRounds step env s (n + k) = afterRounds step env s n := by
  induction k with
  | zero => rfl
  | succ k ih =>
      rw [← Nat.add_assoc, afterRounds_succ, ih fun i hi => hsame i (Nat.lt_succ_of_lt hi)]
      exact hsame k (Nat.lt_succ_self k)

/-- The invariant holds, with some rank, as far as the loop gets. -/
theorem inv_afterRounds {inv : σ → Nat → Prop} {idle : α → Prop} {b : Nat}
    (hidle : ∀ s a b, inv s b → ¬ final s → idle a → step s a = s)
    (hwork : ∀ s a b, inv s b → ¬ final s → ¬ idle a → ∃ b' < b, inv (step s a) b') (hs : inv s b) (n : Nat)
    (hgoing : ∀ k < n, ¬ final (afterRounds step env s k)) : ∃ b, inv (afterRounds step env s n) b := by
  induction n with
  | zero => exact ⟨b, hs⟩
  | succ n ih =>
      obtain ⟨b, hb⟩ := ih fun k hk => hgoing k (Nat.lt_succ_of_lt hk)
      have hnot := hgoing n (Nat.lt_succ_self n)
      rw [afterRounds_succ]
      by_cases hn : idle (env n)
      · exact ⟨b, by rwa [hidle _ _ b hb hnot hn]⟩
      · obtain ⟨b', -, hb'⟩ := hwork _ _ b hb hnot hn
        exact ⟨b', hb'⟩

/-- From a state with a rank, a round that is not idle leads to a state with a smaller one. -/
theorem rank_falls {inv : σ → Nat → Prop} {idle : α → Prop} {b n : Nat}
    (hidle : ∀ s a b, inv s b → ¬ final s → idle a → step s a = s)
    (hwork : ∀ s a b, inv s b → ¬ final s → ¬ idle a → ∃ b' < b, inv (step s a) b')
    (hgoing : ∀ n, ¬ final (afterRounds step env s n)) (hb : inv (afterRounds step env s n) b) (k : Nat)
    (hk : ¬ idle (env (n + k))) : ∃ m, ∃ b' < b, inv (afterRounds step env s m) b' := by
  induction k using Nat.strong_induction_on with
  | _ k first =>
      by_cases hearlier : ∃ i < k, ¬ idle (env (n + i))
      · obtain ⟨i, hi, hwork'⟩ := hearlier
        exact first i hi hwork'
      · have hsame := afterRounds_same k fun i hi =>
          hidle _ _ b hb (hgoing n) (by_contra fun hx => hearlier ⟨i, hi, hx⟩)
        rw [← hsame] at hb
        exact ⟨n + k + 1, hwork _ _ b hb (hgoing (n + k)) hk⟩

/-- **A loop with idle rounds**: where an idle round changes nothing, and every other one lowers the rank, the loop
ends exactly if it never comes to a point from which all rounds are idle. -/
theorem ends_iff_works {inv : σ → Nat → Prop} {idle : α → Prop} {b : Nat}
    (hidle : ∀ s a b, inv s b → ¬ final s → idle a → step s a = s)
    (hwork : ∀ s a b, inv s b → ¬ final s → ¬ idle a → ∃ b' < b, inv (step s a) b') (hs : inv s b) :
    Ends step final env s ↔
      ∀ n, (∀ k ≤ n, ¬ final (afterRounds step env s k)) → ∃ m, n ≤ m ∧ ¬ idle (env m) := by
  constructor
  · rintro ⟨N, hN⟩ n hgoing
    by_contra hnone
    have hall : ∀ m, n ≤ m → idle (env m) := fun m hm => by
      by_contra hm'
      exact hnone ⟨m, hm, hm'⟩
    obtain ⟨b, hb⟩ := inv_afterRounds hidle hwork hs n fun k hk => hgoing k hk.le
    rcases Nat.le_total N n with hle | hle
    · exact hgoing N hle hN
    · -- the state before round `n` is that of all later rounds
      obtain ⟨k, rfl⟩ := Nat.exists_eq_add_of_le hle
      rw [afterRounds_same k fun i _ =>
        hidle _ _ b hb (hgoing n (Nat.le_refl n)) (hall (n + i) (Nat.le_add_right n i))] at hN
      exact hgoing n (Nat.le_refl n) hN
  · intro hworks
    by_contra hnever
    have hgoing : ∀ n, ¬ final (afterRounds step env s n) := fun n hn => hnever ⟨n, hn⟩
    have hdescent : ∀ b n, ¬ inv (afterRounds step env s n) b := by
      intro b
      induction b using Nat.strong_induction_on with
      | _ b ih =>
          intro n hb
          obtain ⟨m, hnm, hm⟩ := hworks n fun k _ => hgoing k
          obtain ⟨k, rfl⟩ := Nat.exists_eq_add_of_le hnm
          obtain ⟨m', b', hlt, hb'⟩ := rank_falls hidle hwork hgoing hb k hm
          exact ih b' hlt m' hb'
    exact hdescent b 0 hs

/-- A loop ends whose measure has always fallen a number of rounds later. -/
theorem ends_of_falls {m : σ → Nat} (k : Nat)
    (hfalls : ∀ n, (∀ i ≤ k, ¬ final (afterRounds step env s (n + i))) →
      m (afterRounds step env s (n + k)) < m (afterRounds step env s n)) :
    Ends step final env s := by
  by_contra hnever
  have hgoing : ∀ n, ¬ final (afterRounds step env s n) := fun n hn => hnever ⟨n, hn⟩
  have hdescent : ∀ b n, m (afterRounds step env s n) = b → False := by
    intro b
    induction b using Nat.strong_induction_on with
    | _ b ih =>
        intro n hn
        exact ih _ (hn ▸ hfalls n fun i _ => hgoing (n + i)) (n + k) rfl
  exact hdescent _ 0 rfl

end Rounds

end QLog.Library
