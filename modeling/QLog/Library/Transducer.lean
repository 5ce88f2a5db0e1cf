import Mathlib.Data.List.Basic

/-! # Chunked stream transducers

A transducer consumes a list of inputs one by one from a state, and emits outputs. The same `runSteps`
serves two levels of one decoder: the *symbol* level, where an input is one symbol, and the *chunk*
level, where an input is a whole chunk of symbols. `runSteps_flatten` is the bridge between them: where
every chunk is processed like its symbols, a run over chunks is the run over the concatenated stream. -/

namespace QLog.Library

universe u v w

variable {σ : Type u} {α : Type v} {β : Type w}

/-- Put outputs in front of those of a result. -/
def prepend (out : List β) (r : σ × List β) : σ × List β := (r.1, out ++ r.2)

@[simp] theorem prepend_fst (out : List β) (r : σ × List β) : (prepend out r).1 = r.1 := rfl

@[simp] theorem prepend_snd (out : List β) (r : σ × List β) : (prepend out r).2 = out ++ r.2 := rfl

/-- Prepending twice prepends the concatenation. -/
theorem prepend_prepend (a b : List β) (r : σ × List β) :
    prepend a (prepend b r) = prepend (a ++ b) r := by
  simp [prepend]

/-- Run a transducer over a list of inputs, collecting the outputs in order. -/
def runSteps (step : σ → α → σ × List β) : σ → List α → σ × List β
  | s, [] => (s, [])
  | s, a :: as => prepend (step s a).2 (runSteps step (step s a).1 as)

section Run

variable (step : σ → α → σ × List β)

@[simp] theorem runSteps_nil (s : σ) : runSteps step s [] = (s, []) := rfl

theorem runSteps_cons (s : σ) (a : α) (as : List α) :
    runSteps step s (a :: as) = prepend (step s a).2 (runSteps step (step s a).1 as) := rfl

@[simp] theorem runSteps_singleton (s : σ) (a : α) : runSteps step s [a] = step s a := by
  simp [runSteps_cons, prepend]

/-- A run over a concatenation is the run over the first part, then over the second. -/
theorem runSteps_append (s : σ) (as bs : List α) :
    runSteps step s (as ++ bs)
      = prepend (runSteps step s as).2 (runSteps step (runSteps step s as).1 bs) := by
  induction as generalizing s with
  | nil => rfl
  | cons a as ih =>
      rw [List.cons_append, runSteps_cons, ih, runSteps_cons, prepend_prepend]
      rfl

/-- What every step preserves, every run preserves. -/
theorem runSteps_invariant {inv : σ → Prop} (hstep : ∀ s a, inv s → inv (step s a).1)
    (s : σ) (as : List α) (hs : inv s) : inv (runSteps step s as).1 := by
  induction as generalizing s with
  | nil => exact hs
  | cons a as ih => exact ih _ (hstep s a hs)

/-- Every step of a run meets a condition on the state before it and the input. -/
def Along (cond : σ → α → Prop) : σ → List α → Prop
  | _, [] => True
  | s, a :: as => cond s a ∧ Along cond (step s a).1 as

instance decidableAlong {cond : σ → α → Prop} [∀ s a, Decidable (cond s a)] :
    ∀ (s : σ) (as : List α), Decidable (Along step cond s as)
  | _, [] => isTrue trivial
  | s, a :: as =>
      @instDecidableAnd (cond s a) (Along step cond (step s a).1 as) _ (decidableAlong (step s a).1 as)

/-- The condition along a concatenation is the condition along both parts. -/
theorem along_append {cond : σ → α → Prop} (s : σ) (as bs : List α) :
    Along step cond s (as ++ bs)
      ↔ Along step cond s as ∧ Along step cond (runSteps step s as).1 bs := by
  induction as generalizing s with
  | nil => simp [Along]
  | cons a as ih =>
      rw [List.cons_append, Along, Along, ih, and_assoc]
      rfl

theorem along_mono {cond cond' : σ → α → Prop} (himp : ∀ s a, cond s a → cond' s a) (s : σ)
    (as : List α) (h : Along step cond s as) : Along step cond' s as := by
  induction as generalizing s with
  | nil => trivial
  | cons a as ih => exact ⟨himp s a h.1, ih _ h.2⟩

theorem along_and {cond cond' : σ → α → Prop} (s : σ) (as : List α) (h : Along step cond s as)
    (h' : Along step cond' s as) : Along step (fun s a => cond s a ∧ cond' s a) s as := by
  induction as generalizing s with
  | nil => trivial
  | cons a as ih => exact ⟨⟨h.1, h'.1⟩, ih _ h.2 h'.2⟩

/-- A condition on a part of the state holds along a run exactly if it holds along the run of the part. -/
theorem along_map {σ' : Type*} {β' : Type*} {part : σ' → α → σ' × List β'} (state : σ → σ') {cond : σ' → α → Prop}
    (hstep : ∀ s a, state (step s a).1 = (part (state s) a).1) (s : σ) (as : List α) :
    Along step (fun s a => cond (state s) a) s as ↔ Along part cond (state s) as := by
  induction as generalizing s with
  | nil => exact Iff.rfl
  | cons a as ih => rw [Along, Along, ih, hstep]

/-- What every step that meets a condition preserves, a run whose steps meet it preserves. -/
theorem runSteps_invariant_along {inv : σ → Prop} {cond : σ → α → Prop}
    (hstep : ∀ s a, inv s → cond s a → inv (step s a).1) (s : σ) (as : List α) (hs : inv s)
    (hcond : Along step cond s as) : inv (runSteps step s as).1 := by
  induction as generalizing s with
  | nil => exact hs
  | cons a as ih => exact ih _ (hstep s a hs hcond.1) hcond.2

/-- What every output of a step that meets a condition has, every output of a run whose steps meet it has. -/
theorem forall_mem_runSteps_along {inv : σ → Prop} {cond : σ → α → Prop} {good : β → Prop}
    (hstep : ∀ s a, inv s → cond s a → inv (step s a).1 ∧ ∀ b ∈ (step s a).2, good b) (s : σ) (as : List α)
    (hs : inv s) (hcond : Along step cond s as) : ∀ b ∈ (runSteps step s as).2, good b := by
  induction as generalizing s with
  | nil => exact fun b hb => absurd hb List.not_mem_nil
  | cons a as ih =>
      intro b hb
      obtain ⟨hinv, hout⟩ := hstep s a hs hcond.1
      rcases List.mem_append.mp hb with hhead | htail
      · exact hout b hhead
      · exact ih _ hinv hcond.2 b htail

/-- The invariant holds in every state in which a step is made. -/
theorem along_and_invariant {inv : σ → Prop} {cond : σ → α → Prop}
    (hstep : ∀ s a, inv s → cond s a → inv (step s a).1) (s : σ) (as : List α) (hs : inv s)
    (hcond : Along step cond s as) : Along step (fun s a => cond s a ∧ inv s) s as := by
  induction as generalizing s with
  | nil => trivial
  | cons a as ih => exact ⟨⟨hcond.1, hs⟩, ih _ (hstep s a hs hcond.1) hcond.2⟩

/-- A condition that holds of every state with an invariant holds along every run from one. -/
theorem along_of_invariant {cond : σ → α → Prop} {inv : σ → Prop}
    (hstep : ∀ s a, inv s → inv (step s a).1) (hcond : ∀ s a, inv s → cond s a)
    (s : σ) (as : List α) (hs : inv s) : Along step cond s as := by
  induction as generalizing s with
  | nil => trivial
  | cons a as ih => exact ⟨hcond s a hs, ih _ (hstep s a hs)⟩

/-- Two conditions that are the same wherever an invariant holds are the same along every run from there. -/
theorem along_congr {cond cond' : σ → α → Prop} {inv : σ → Prop}
    (hstep : ∀ s a, inv s → inv (step s a).1) (hiff : ∀ s a, inv s → (cond s a ↔ cond' s a))
    (s : σ) (as : List α) (hs : inv s) : Along step cond s as ↔ Along step cond' s as := by
  induction as generalizing s with
  | nil => exact Iff.rfl
  | cons a as ih => exact and_congr (hiff s a hs) (ih _ (hstep s a hs))

/-- Where all states of a run are good, every step meets what it must meet for the next state to be good. -/
theorem along_of_good {cond cond' : σ → α → Prop} {good : σ → Prop}
    (hstep : ∀ s a, cond s a → good (step s a).1 → cond' s a) (s : σ) (as : List α)
    (hcond : Along step cond s as) (hgood : ∀ front, front <+: as → good (runSteps step s front).1) :
    Along step cond' s as := by
  induction as generalizing s with
  | nil => trivial
  | cons a as ih =>
      refine ⟨hstep s a hcond.1 ?_, ih _ hcond.2 fun front hfront => ?_⟩
      -- the state after the first step is that of a run of one input
      · have hone := hgood [a] (List.cons_prefix_cons.mpr ⟨rfl, List.nil_prefix⟩)
        rwa [runSteps_singleton] at hone
      · exact hgood (a :: front) (List.cons_prefix_cons.mpr ⟨rfl, hfront⟩)

/-- How many steps of a run are of a kind. -/
def countAlong (kind : σ → α → Bool) : σ → List α → Nat
  | _, [] => 0
  | s, a :: as => (kind s a).toNat + countAlong kind (step s a).1 as

/-- A measure that no step raises, and every step of a kind lowers, bounds the steps of that kind. -/
theorem countAlong_le {kind : σ → α → Bool} {inv : σ → Prop} {cond : σ → α → Prop} {measure : σ → Nat}
    (hstep : ∀ s a, inv s → cond s a →
      inv (step s a).1 ∧ measure (step s a).1 + (kind s a).toNat ≤ measure s)
    (s : σ) (as : List α) (hs : inv s) (hcond : Along step cond s as) :
    measure (runSteps step s as).1 + countAlong step kind s as ≤ measure s := by
  induction as generalizing s with
  | nil => exact Nat.le_refl _
  | cons a as ih =>
      obtain ⟨hinv, hlower⟩ := hstep s a hs hcond.1
      -- the tail is bounded by the measure after the first step
      have htail := ih _ hinv hcond.2
      rw [runSteps_cons, prepend_fst, countAlong]
      omega

/-- What is counted of the outputs of a run is as much as what is counted of its inputs, at every time, exactly if every
step puts out one for an input that counts, and none for another. -/
theorem countP_runSteps_eq_countP_iff (kind : β → Bool) (asked : α → Bool) (s : σ) (as : List α) :
    (∀ front, front <+: as → (runSteps step s front).2.countP kind = front.countP asked) ↔
      Along step (fun s a => (step s a).2.countP kind = (asked a).toNat) s as := by
  induction as generalizing s with
  | nil =>
      refine ⟨fun _ => trivial, fun _ front hfront => ?_⟩
      rw [List.prefix_nil.mp hfront]
      rfl
  | cons a as ih =>
      have hcons : ∀ front, (a :: front).countP asked = (asked a).toNat + front.countP asked := fun front => by
        rw [List.countP_cons, Nat.add_comm]
        cases asked a <;> rfl
      rw [Along, ← ih]
      constructor
      · intro h
        have hone := h [a] (List.cons_prefix_cons.mpr ⟨rfl, List.nil_prefix⟩)
        rw [runSteps_singleton, hcons, List.countP_nil, Nat.add_zero] at hone
        refine ⟨hone, fun front hfront => ?_⟩
        have hmore := h (a :: front) (List.cons_prefix_cons.mpr ⟨rfl, hfront⟩)
        rw [runSteps_cons, prepend_snd, List.countP_append, hone, hcons] at hmore
        exact Nat.add_left_cancel hmore
      · rintro ⟨hone, hrest⟩ front hfront
        cases front with
        | nil => rfl
        | cons b front =>
            obtain ⟨rfl, hrest'⟩ := List.cons_prefix_cons.mp hfront
            rw [runSteps_cons, prepend_snd, List.countP_append, hone, hrest front hrest', hcons]

/-- A rank that no step raises, and every step of a kind lowers down to zero: after as many steps of that kind as it
says, it is zero. -/
theorem rank_runSteps_le {kind : α → Bool} {inv : σ → Prop} (rank : σ → Nat)
    (hstep : ∀ s a, inv s → inv (step s a).1 ∧ rank (step s a).1 ≤ rank s - (kind a).toNat)
    (s : σ) (as : List α) (hs : inv s) :
    inv (runSteps step s as).1 ∧ rank (runSteps step s as).1 ≤ rank s - as.countP kind := by
  induction as generalizing s with
  | nil => exact ⟨hs, Nat.le_refl _⟩
  | cons a as ih =>
      obtain ⟨hinv, hlower⟩ := hstep s a hs
      obtain ⟨hend, hrank⟩ := ih _ hinv
      have hcount : (a :: as).countP kind = as.countP kind + (kind a).toNat := by
        rw [List.countP_cons]
        cases kind a <;> rfl
      refine ⟨hend, ?_⟩
      rw [runSteps_cons, prepend_fst, hcount]
      omega

/-- Where every chunk of symbols is processed like its symbols one by one, running over chunks is
running over the stream they make up. `ok` says of a state and the symbols ahead that this holds, and
passes from a stream to its two parts at every cut. -/
theorem runSteps_flatten (chunk : σ → List α → σ × List β) {ok : σ → List α → Prop}
    (hchunk : ∀ s c, c ≠ [] → ok s c → chunk s c = runSteps step s c)
    (hcut : ∀ s as bs, ok s (as ++ bs) → ok s as ∧ ok (runSteps step s as).1 bs)
    (s : σ) (cs : List (List α)) (hne : ∀ c ∈ cs, c ≠ []) (hok : ok s cs.flatten) :
    runSteps chunk s cs = runSteps step s cs.flatten := by
  induction cs generalizing s with
  | nil => rfl
  -- the chunk in front is cut off the stream, and the run goes on from the state after it
  | cons c cs ih =>
      rw [List.flatten_cons] at hok
      obtain ⟨hc, hcs⟩ := hcut s c cs.flatten hok
      have hhead : chunk s c = runSteps step s c := hchunk s c (hne c List.mem_cons_self) hc
      rw [runSteps_cons, hhead, List.flatten_cons, runSteps_append,
        ih _ (fun d hd => hne d (List.mem_cons_of_mem c hd)) hcs]

/-- A run whose steps are runs themselves is one run over all their inputs. -/
theorem runSteps_flatMap {γ : Type*} (pieces : γ → List α) (s : σ) (cs : List γ) :
    runSteps (fun s c => runSteps step s (pieces c)) s cs = runSteps step s (cs.flatMap pieces) := by
  induction cs generalizing s with
  | nil => rfl
  | cons c cs ih => rw [runSteps_cons, ih, List.flatMap_cons, runSteps_append]

end Run

/-! ## One transducer inside another -/

section Project

universe u' v' w'

variable {σ' : Type u'} {α' : Type v'} {β' : Type w'}

/-- A transducer `part` is what `whole` does to one part of its state: inputs that concern the part act on it as
`part` does, the others leave it alone and put out nothing for it. -/
structure Projects (whole : σ → α → σ × List β) (part : σ' → α' → σ' × List β') (state : σ → σ')
    (input : α → Option α') (output : β → Option β') : Prop where
  hit : ∀ s a a', input a = some a' →
    state (whole s a).1 = (part (state s) a').1 ∧ (whole s a).2.filterMap output = (part (state s) a').2
  miss : ∀ s a, input a = none → state (whole s a).1 = state s ∧ (whole s a).2.filterMap output = []

/-- In every run the part does what it would do alone with the inputs that concern it. -/
theorem Projects.runSteps {whole : σ → α → σ × List β} {part : σ' → α' → σ' × List β'} {state : σ → σ'}
    {input : α → Option α'} {output : β → Option β'} (h : Projects whole part state input output) (s : σ)
    (as : List α) :
    state (runSteps whole s as).1 = (runSteps part (state s) (as.filterMap input)).1 ∧
      (runSteps whole s as).2.filterMap output = (runSteps part (state s) (as.filterMap input)).2 := by
  induction as generalizing s with
  | nil => exact ⟨rfl, rfl⟩
  | cons a as ih =>
      obtain ⟨hstate, hout⟩ := ih (whole s a).1
      rw [runSteps_cons, prepend_fst, prepend_snd, List.filterMap_append, List.filterMap_cons, hstate, hout]
      cases hin : input a with
      -- an input for another part puts out nothing here
      | none =>
          obtain ⟨hs, ho⟩ := h.miss s a hin
          rw [hs, ho]
          exact ⟨rfl, rfl⟩
      | some a' =>
          obtain ⟨hs, ho⟩ := h.hit s a a' hin
          rw [hs, ho]
          exact ⟨rfl, rfl⟩

end Project

/-! ## Simulation -/

section Simulation

universe u' v' w'

variable {σ' : Type u'} {α' : Type v'} {β' : Type w'} (step : σ → α → σ × List β) (step' : σ' → α' → σ' × List β')
variable (answer : σ → α → List α')

/-- The steps of a simulating transducer: every step is answered by some, perhaps none. -/
def answeringSteps : σ → List α → List α'
  | _, [] => []
  | s, a :: as => answer s a ++ answeringSteps (step s a).1 as

/-- Where every step is answered by steps that keep a relation of the states and put out the same, a run is answered by
a run that does. -/
theorem runSteps_simulation {rel : σ → σ' → Prop} {cond : σ → α → Prop} {output : β → β'}
    (hstep : ∀ s t a, rel s t → cond s a → rel (step s a).1 (runSteps step' t (answer s a)).1 ∧
      (step s a).2.map output = (runSteps step' t (answer s a)).2)
    (s : σ) (t : σ') (as : List α) (h : rel s t) (hcond : Along step cond s as) :
    rel (runSteps step s as).1 (runSteps step' t (answeringSteps step answer s as)).1 ∧
      (runSteps step s as).2.map output = (runSteps step' t (answeringSteps step answer s as)).2 := by
  induction as generalizing s t with
  | nil => exact ⟨h, rfl⟩
  | cons a as ih =>
      obtain ⟨hrel, hout⟩ := hstep s t a h hcond.1
      obtain ⟨hrel', hout'⟩ := ih _ _ hrel hcond.2
      rw [answeringSteps, runSteps_append, runSteps_cons, prepend_fst, prepend_snd, prepend_fst, prepend_snd,
        List.map_append, hout, hout']
      exact ⟨hrel', rfl⟩

/-- What the answers to every step meet, the answers to a run meet. -/
theorem along_answeringSteps {rel : σ → σ' → Prop} {cond : σ → α → Prop} {cond' : σ' → α' → Prop}
    (hstep : ∀ s t a, rel s t → cond s a → rel (step s a).1 (runSteps step' t (answer s a)).1)
    (hanswer : ∀ s t a, rel s t → cond s a → Along step' cond' t (answer s a))
    (s : σ) (t : σ') (as : List α) (h : rel s t) (hcond : Along step cond s as) :
    Along step' cond' t (answeringSteps step answer s as) := by
  induction as generalizing s t with
  | nil => trivial
  | cons a as ih =>
      rw [answeringSteps, along_append]
      exact ⟨hanswer s t a h hcond.1, ih _ _ (hstep s t a h hcond.1) hcond.2⟩

end Simulation

end QLog.Library
