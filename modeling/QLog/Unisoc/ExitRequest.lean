import QLog.Unisoc.CatchBlueScreen

/-! # Leaving the dump of the EXX00U

`qlog_exit_requested` is tested in front of every entry of the table and of every block. The loop of
`unisoc_exx00u_recv_cmd_deal` does not test it, and nothing is read any more once it is set: who waits there then waits
for ever, and so does who comes there without another test. -/

namespace QLog.BlueScreen

open Library
open Ec800g (ReadResult RegionCmd RequireCmd Cmd)

/-- `unisoc_exx00u_catch_blue_screen` has returned. -/
def CatchPc.Returned (pc : CatchPc) : Prop := ∃ ret, pc = .returned ret

def CatchStep.isDump : CatchStep → Bool
  | .dump _ => true
  | _ => false

/-- **The dump ends**: the dump thread returns after some number of steps, whatever it meets and the other thread
does. -/
def EndsDump (s : CatchState) : Prop :=
  ∃ n, ∀ steps : List CatchStep, n ≤ steps.countP CatchStep.isDump → (runSteps catchStep s steps).1.pc.Returned

/-- The dump thread waits for an answer, or comes to do so without another test of the exit request. -/
def CatchPc.Waits : CatchPc → Prop
  | .decide (.region r) table => r.skip ≠ 1 ∧ nextRequire table ≠ none
  | .readReceiving _ _ _ => True
  | .sending _ => True
  | .blockReceiving _ => True
  | _ => False

/-- How many steps it takes at most to return, where the dump thread does not wait. -/
def CatchPc.rank : CatchPc → Nat
  | .entry _ => 1
  | .head _ => 2
  | .opening _ _ => 3
  | .blockReceived _ _ => 3
  | .decide _ _ => 4
  | .readReceived _ _ _ _ => 4
  | _ => 0

section Exit

variable {s : CatchState}

/-- With an exit request, a thread that does not wait comes nearer to its return. -/
theorem dump_rank (hexit : s.exit = true) (hwaits : ¬ s.pc.Waits) (inp : CatchInput) :
    (s.dump inp).1.exit = true ∧ ¬ (s.dump inp).1.pc.Waits ∧ (s.dump inp).1.pc.rank ≤ s.pc.rank - 1 := by
  rw [CatchState.dump]
  cases hpc : s.pc with
  | entry table =>
      cases table with
      | nil => exact ⟨hexit, id, Nat.le_refl 0⟩
      | cons cmd table =>
          dsimp only
          rw [if_pos hexit]
          exact ⟨hexit, id, Nat.le_refl 0⟩
  | decide cmd table =>
      cases cmd with
      | require q => exact ⟨hexit, id, (by decide : 1 ≤ 3)⟩
      | region r =>
          rw [hpc, CatchPc.Waits, not_and, not_not] at hwaits
          dsimp only
          split
          · exact ⟨hexit, id, (by decide : 1 ≤ 3)⟩
          · next hskip =>
              rw [hwaits hskip]
              exact ⟨hexit, id, Nat.le_refl 3⟩
  | readReceiving r q table =>
      rw [hpc] at hwaits
      exact absurd trivial hwaits
  | readReceived r q table read =>
      dsimp only
      split
      · exact ⟨hexit, id, Nat.le_refl 3⟩
      · exact ⟨hexit, id, (by decide : 1 ≤ 3)⟩
  | opening r table =>
      dsimp only
      split
      · exact ⟨hexit, id, Nat.le_refl 2⟩
      · exact ⟨hexit, id, Nat.zero_le 2⟩
  | head d =>
      dsimp only
      rw [if_pos hexit]
      split
      · exact ⟨hexit, id, Nat.zero_le 1⟩
      · exact ⟨hexit, id, Nat.le_refl 1⟩
  | sending d =>
      rw [hpc] at hwaits
      exact absurd trivial hwaits
  | blockReceiving d =>
      rw [hpc] at hwaits
      exact absurd trivial hwaits
  | blockReceived d read =>
      dsimp only
      split
      · exact ⟨hexit, id, Nat.le_refl 2⟩
      · dsimp only
        split
        · exact ⟨hexit, id, Nat.le_refl 2⟩
        · exact ⟨hexit, id, Nat.zero_le 2⟩
  | returned ret =>
      dsimp only
      rw [hpc]
      exact ⟨hexit, id, Nat.le_refl 0⟩

/-- The steps of the other thread change nothing of this. -/
theorem catchStep_rank (s : CatchState) (step : CatchStep) (h : s.exit = true ∧ ¬ s.pc.Waits) :
    ((catchStep s step).1.exit = true ∧ ¬ (catchStep s step).1.pc.Waits) ∧
      (catchStep s step).1.pc.rank ≤ s.pc.rank - step.isDump.toNat := by
  cases step with
  | query addr => exact ⟨h, Nat.le_refl _⟩
  | exit => exact ⟨⟨rfl, h.2⟩, Nat.le_refl _⟩
  | dump inp =>
      obtain ⟨hexit, hwaits, hrank⟩ := dump_rank h.1 h.2 inp
      exact ⟨⟨hexit, hwaits⟩, hrank⟩

theorem returned_of_rank {pc : CatchPc} (hwaits : ¬ pc.Waits) (hrank : pc.rank = 0) : pc.Returned := by
  cases pc with
  | returned ret => exact ⟨ret, rfl⟩
  | readReceiving r q table => exact absurd trivial hwaits
  | sending d => exact absurd trivial hwaits
  | blockReceiving d => exact absurd trivial hwaits
  | _ => cases hrank

theorem endsDump_of_not_waits (hexit : s.exit = true) (hwaits : ¬ s.pc.Waits) : EndsDump s := by
  refine ⟨s.pc.rank, fun steps hsteps => ?_⟩
  obtain ⟨⟨-, hend⟩, hrank⟩ :=
    rank_runSteps_le catchStep (fun s => s.pc.rank) catchStep_rank s steps ⟨hexit, hwaits⟩
  exact returned_of_rank hend (by omega)

/-- What the dump thread meets where its requests can be sent. -/
def silentInput : CatchInput := ⟨true, .bytes [] (Nat.zero_le _), true, true⟩

/-- Without a read, the loop of `unisoc_exx00u_recv_cmd_deal` goes on. -/
theorem receive_nothing (s : CatchState) (received : ReadResult → CatchPc) :
    (s.receive (recvCmd true silentInput.read) received).1.exit = s.exit ∧
      (s.receive (recvCmd true silentInput.read) received).1.pc = s.pc := by
  rw [CatchState.receive]
  split
  · rw [if_pos (by decide)]
    exact ⟨rfl, rfl⟩
  · exact ⟨rfl, rfl⟩

/-- With an exit request, a thread that waits goes on waiting. -/
theorem dump_waits (hexit : s.exit = true) (hwaits : s.pc.Waits) :
    (s.dump silentInput).1.exit = true ∧ (s.dump silentInput).1.pc.Waits := by
  rw [CatchState.dump]
  cases hpc : s.pc with
  | decide cmd table =>
      rw [hpc] at hwaits
      cases cmd with
      | require q => exact hwaits.elim
      | region r =>
          dsimp only
          rw [if_neg hwaits.1]
          obtain ⟨q, hq⟩ := Option.ne_none_iff_exists'.mp hwaits.2
          rw [hq]
          exact ⟨hexit, trivial⟩
  | readReceiving r q table =>
      dsimp only
      rw [hexit]
      obtain ⟨hexit', hpc'⟩ := receive_nothing s (.readReceived r q table)
      exact ⟨hexit'.trans hexit, by rw [hpc', hpc]; trivial⟩
  | sending d => exact ⟨hexit, trivial⟩
  | blockReceiving d =>
      dsimp only
      rw [hexit]
      obtain ⟨hexit', hpc'⟩ := receive_nothing s (.blockReceived d)
      exact ⟨hexit'.trans hexit, by rw [hpc', hpc]; trivial⟩
  | _ =>
      rw [hpc] at hwaits
      exact hwaits.elim

/-- As long as it makes its steps and nothing fails, it waits. -/
theorem waits_replicate (hexit : s.exit = true) (hwaits : s.pc.Waits) (n : Nat) :
    (runSteps catchStep s (List.replicate n (.dump silentInput))).1.pc.Waits := by
  induction n generalizing s with
  | zero => exact hwaits
  | succ n ih =>
      obtain ⟨hexit', hwaits'⟩ := dump_waits hexit hwaits
      rw [List.replicate_succ, runSteps_cons, prepend_fst]
      exact ih hexit' hwaits'

theorem not_endsDump_of_waits (hexit : s.exit = true) (hwaits : s.pc.Waits) : ¬ EndsDump s := by
  rintro ⟨n, hends⟩
  have hcount : n ≤ (List.replicate n (CatchStep.dump silentInput)).countP CatchStep.isDump := by
    rw [List.countP_replicate]
    exact Nat.le_refl n
  obtain ⟨ret, hret⟩ := hends _ hcount
  have hend := waits_replicate hexit hwaits n
  rw [hret] at hend
  exact hend

end Exit

/-- **When an exit request ends the dump**: exactly if it does not find the dump thread waiting for an answer, or
between a test of the flag and the wait. -/
theorem endsDump_iff (s : CatchState) (hexit : s.exit = true) : EndsDump s ↔ ¬ s.pc.Waits :=
  ⟨fun hends hwaits => not_endsDump_of_waits hexit hwaits hends, endsDump_of_not_waits hexit⟩

/-- An exit request in front of the first entry. -/
theorem endsDump_iff_entry :
    EndsDump { catchStart [.query 0] [0xad, 0x00, 0x03, 0xff, 0x01, 0x01] conditionalRegion with exit := true } ↔
      ¬ (catchStart [.query 0] [0xad, 0x00, 0x03, 0xff, 0x01, 0x01] conditionalRegion).pc.Waits :=
  endsDump_iff _ rfl

/-- The exit request comes while the register of the first entry is waited for. -/
theorem not_endsDump :
    ¬ ∀ (before : List Request) (pbuf : List UInt8) (table : List Cmd) (steps : List CatchStep),
      (runSteps catchStep (catchStart before pbuf table) steps).1.exit = true →
        EndsDump (runSteps catchStep (catchStart before pbuf table) steps).1 := by
  intro h
  have hends := h [.query 0] [0xad, 0x00, 0x03, 0xff, 0x01, 0x01] conditionalRegion
    [.dump silentInput, .dump silentInput, .exit] rfl
  exact absurd hends (not_endsDump_of_waits rfl trivial)

end QLog.BlueScreen
