import QLog.Unisoc.RegionFile

/-! # The regions that are dumped

Some regions of the EC800G are only dumped if a register has a certain value, or two of them have: the entries of the
command table behind the region say which. The answer to `read32` carries the value, but it is not looked at:
`unisoc_ec800g_recv_cmd_deal` fills the value from the memory behind its own array of four bytes. -/

namespace QLog.Ec800g

open Library

/-- `ql_region_cmd` -/
structure RegionCmd where
  filename : List Char
  base : Nat
  size : Nat
  skip : Nat
deriving DecidableEq

/-- `ql_require_cmd` -/
structure RequireCmd where
  addr : Nat
  mask : Nat
  value : Nat
deriving DecidableEq

/-- `ql_cmd` -/
inductive Cmd
  | region (r : RegionCmd)
  | require (q : RequireCmd)
deriving DecidableEq

/-- The require entries at the front of a table. -/
def followingRequires : List Cmd → List RequireCmd
  | .require q :: table => q :: followingRequires table
  | _ => []

/-- Behind every region there are two require entries at most. -/
def TwoRequires : List Cmd → Prop
  | [] => True
  | .region _ :: table => (followingRequires table).length ≤ 2 ∧ TwoRequires table
  | .require _ :: table => TwoRequires table

/-- A table of the form of `ql_ec800g_xml_data_defult`. -/
structure CmdTable where
  cmds : List Cmd
  two : TwoRequires cmds

/-- What the loop meets at an entry of the table. -/
structure CmdInput where
  /-- `qlog_exit_requested`, in front of the entry. -/
  exit : Bool
  /-- For a region, the answers to the `read32` for its require entries. -/
  values : List (List RecvInput)
  /-- `open` has given a descriptor for the dump file. -/
  opened : Bool
  blocks : List BlockInput

/-- `(rvalue & require.mask) == require.value` -/
def RequireCmd.Passes (q : RequireCmd) (rvalue : Nat) : Prop := rvalue &&& q.mask = q.value

instance (q : RequireCmd) (rvalue : Nat) : Decidable (q.Passes rvalue) := inferInstanceAs (Decidable (_ = _))

/-- The require entries that are looked at. -/
def checkedRequires : List Cmd → List RequireCmd
  | .require q :: .require q' :: _ => [q, q']
  | .require q :: _ => [q]
  | _ => []

/-- The `read32` for some require entries up to one that does not pass: the answers, and whether all have passed. -/
def checkRequires : Channel → List RequireCmd → List (List RecvInput) → Option (Channel × List RecvResult × Bool)
  | ch, [], _ => some (ch, [], true)
  | _, _ :: _, [] => none
  | ch, q :: qs, inputs :: rest =>
      match ch.recv .read32 inputs with
      | none => none
      | some r =>
          if q.Passes r.vars.pvalue then
            (checkRequires (ch.answered r) qs rest).map fun c => (c.1, r :: c.2.1, c.2.2)
          else some (ch.answered r, [r], false)

/-- The size of a region: that of the `psram` is the one that the device has said. -/
def regionSize (psramSize : Nat) (r : RegionCmd) : Nat :=
  if "psram".toList.isPrefixOf r.filename && !"psram_phy".toList.isPrefixOf r.filename then psramSize else r.size

/-- The loop over a region, if it ends well. -/
def dumpRegion (psramSize : Nat) (ch : Channel) (r : RegionCmd) (blocks : List BlockInput) : Option Channel :=
  match (runSteps regionStep (regionStart ch r.base (regionSize psramSize r)) blocks).1 with
  | .finished ch => some ch
  | _ => none

/-- What has been decided for a region that is not skipped: with which answers to `read32`, and whether the code goes on
to its dump. -/
structure Decision where
  region : RegionCmd
  requires : List RequireCmd
  answers : List RecvResult
  dumped : Bool

/-- The loop of `unisoc_ec800g_catch_blue_screen` over the table: what it decides, until it ends or is left. -/
def catchBlueScreen (psramSize : Nat) : Channel → List Cmd → List CmdInput → List Decision
  | _, [], _ => []
  | _, _ :: _, [] => []
  | ch, cmd :: table, inp :: inputs =>
      if inp.exit then []
      else
        match cmd with
        | .require _ => catchBlueScreen psramSize ch table inputs
        | .region r =>
            if r.skip = 1 then catchBlueScreen psramSize ch table inputs
            else
              match checkRequires ch (checkedRequires table) inp.values with
              | none => []
              | some (ch, answers, false) =>
                  ⟨r, followingRequires table, answers, false⟩ :: catchBlueScreen psramSize ch table inputs
              | some (ch, answers, true) =>
                  ⟨r, followingRequires table, answers, true⟩ ::
                    if inp.opened = false then []
                    else
                      match dumpRegion psramSize ch r inp.blocks with
                      | none => []
                      | some ch => catchBlueScreen psramSize ch table inputs

/-- The value in an answer to `read32`: the bytes at the offset 25 of its frame. -/
def RecvResult.value (r : RecvResult) : Nat :=
  ofLeBytes (window r.vars.pbufTmp (r.vars.realStartOffset + 25) (r.vars.realStartOffset + 29))

/-- The four bytes of the stack that `buf_tmp1` is filled from. -/
def RecvResult.stackValue (r : RecvResult) : Nat :=
  ofLeBytes ((List.range 4).map fun k => r.last.stack (r.vars.realStartOffset + 25 + k))

/-- The answers are accepted, and carry the values of the registers. -/
def Decision.Carries (register : Nat → Nat) (d : Decision) : Prop :=
  ∀ p ∈ d.requires.zip d.answers, p.2.accepted = true ∧ p.2.value = register p.1.addr

/-- **The registers decide**: a region is dumped exactly if the values of the registers pass all its require entries. -/
def Decision.DecidedBy (register : Nat → Nat) (d : Decision) : Prop :=
  d.dumped = true ↔ ∀ q ∈ d.requires, q.Passes (register q.addr)

/-- The bytes of the stack pass the require entries that are looked at exactly if the registers pass all of them. -/
def Decision.StackAgrees (register : Nat → Nat) (d : Decision) : Prop :=
  (∀ p ∈ d.requires.zip d.answers, p.1.Passes p.2.stackValue) ↔ ∀ q ∈ d.requires, q.Passes (register q.addr)

section Decisions

variable {psramSize : Nat} {ch ch' : Channel} {table : List Cmd} {inputs : List CmdInput}

/-- With two require entries at most, all of them are looked at. -/
theorem checkedRequires_eq (h : (followingRequires table).length ≤ 2) :
    checkedRequires table = followingRequires table := by
  cases table with
  | nil => rfl
  | cons cmd table =>
      cases cmd with
      | region r => rfl
      | require q =>
          cases table with
          | nil => rfl
          | cons cmd table =>
              cases cmd with
              | region r => rfl
              | require q' =>
                  simp only [followingRequires, List.length_cons] at h
                  have hnone : followingRequires table = [] := List.length_eq_zero_iff.mp (by omega)
                  rw [followingRequires, followingRequires, hnone]
                  rfl

/-- The value of an answer to `read32` is that of the stack. -/
theorem recv_pvalue {values : List RecvInput} {r : RecvResult} (h : ch.recv .read32 values = some r) :
    r.vars.pvalue = r.stackValue := by
  rw [RecvResult.stackValue, (recvLoop_spec h).1]
  rfl

/-- All require entries have passed exactly if the bytes of the stack pass those that have been looked at. -/
theorem checkRequires_iff {qs : List RequireCmd} {values : List (List RecvInput)} {answers : List RecvResult}
    {ok : Bool} (h : checkRequires ch qs values = some (ch', answers, ok)) :
    ok = true ↔ ∀ p ∈ qs.zip answers, p.1.Passes p.2.stackValue := by
  induction qs generalizing ch values answers with
  | nil =>
      obtain ⟨-, -, rfl⟩ : ch = ch' ∧ [] = answers ∧ true = ok := by simpa [checkRequires] using h
      simp
  | cons q qs ih =>
      cases values with
      | nil => cases h
      | cons inputs values =>
          rw [checkRequires] at h
          cases hrecv : ch.recv .read32 inputs with
          | none =>
              rw [hrecv] at h
              cases h
          | some r =>
              rw [hrecv] at h
              dsimp only at h
              rw [recv_pvalue hrecv] at h
              split at h
              · next hpasses =>
                  obtain ⟨c, hc, heq⟩ := Option.map_eq_some_iff.mp h
                  simp only [Prod.mk.injEq] at heq
                  obtain ⟨rfl, rfl, rfl⟩ := heq
                  rw [List.zip_cons_cons, List.forall_mem_cons]
                  exact (ih hc).trans (and_iff_right hpasses).symm
              · next hfails =>
                  simp only [Option.some.injEq, Prod.mk.injEq] at h
                  obtain ⟨-, rfl, rfl⟩ := h
                  rw [List.zip_cons_cons, List.forall_mem_cons]
                  exact iff_of_false Bool.false_ne_true fun hall => hfails hall.1

/-- Whether a region is dumped depends on the bytes of the stack alone. -/
theorem dumped_iff (htwo : TwoRequires table) :
    ∀ d ∈ catchBlueScreen psramSize ch table inputs,
      d.dumped = true ↔ ∀ p ∈ d.requires.zip d.answers, p.1.Passes p.2.stackValue := by
  induction table generalizing ch inputs with
  | nil => exact fun d hd => absurd hd List.not_mem_nil
  | cons cmd table ih =>
      cases inputs with
      | nil => exact fun d hd => absurd hd List.not_mem_nil
      | cons inp inputs =>
          unfold catchBlueScreen
          split
          · exact fun d hd => absurd hd List.not_mem_nil
          · cases cmd with
            | require q => exact ih htwo
            | region r =>
                dsimp only
                split
                · exact ih htwo.2
                · rw [checkedRequires_eq htwo.1]
                  cases hcheck : checkRequires ch (followingRequires table) inp.values with
                  | none => exact fun d hd => absurd hd List.not_mem_nil
                  | some c =>
                      obtain ⟨ch', answers, ok⟩ := c
                      have hok := checkRequires_iff hcheck
                      cases ok with
                      | false => exact List.forall_mem_cons.mpr ⟨hok, ih htwo.2⟩
                      | true =>
                          refine List.forall_mem_cons.mpr ⟨hok, ?_⟩
                          split
                          · exact fun d hd => absurd hd List.not_mem_nil
                          · cases dumpRegion psramSize ch' r inp.blocks with
                            | none => exact fun d hd => absurd hd List.not_mem_nil
                            | some ch'' => exact ih htwo.2

end Decisions

/-- **When the registers decide**: exactly if the bytes of the stack that stand in for their values pass where they
do. -/
theorem catchBlueScreen_decidedBy_iff (psramSize : Nat) (ch : Channel) (table : CmdTable) (inputs : List CmdInput)
    (register : Nat → Nat) :
    ((∀ d ∈ catchBlueScreen psramSize ch table.cmds inputs, d.Carries register) →
        ∀ d ∈ catchBlueScreen psramSize ch table.cmds inputs, d.DecidedBy register) ↔
      ((∀ d ∈ catchBlueScreen psramSize ch table.cmds inputs, d.Carries register) →
        ∀ d ∈ catchBlueScreen psramSize ch table.cmds inputs, d.StackAgrees register) := by
  refine imp_congr_right fun _ => forall₂_congr fun d hd => ?_
  rw [Decision.DecidedBy, Decision.StackAgrees, dumped_iff table.two d hd]

/-- A region that is there if the lowest bit of a register is set. -/
def oneRequire : CmdTable where
  cmds := [.region ⟨"psram_phy".toList, 0x80000000, 4, 0⟩, .require ⟨0x51600000, 1, 1⟩]
  two := ⟨by decide, trivial⟩

/-- The register has the value 1, and the region is not dumped. -/
theorem not_catchBlueScreen_decidedBy :
    ¬ ∀ (psramSize : Nat) (ch : Channel) (table : CmdTable) (inputs : List CmdInput) (register : Nat → Nat),
      (∀ d ∈ catchBlueScreen psramSize ch table.cmds inputs, d.Carries register) →
        ∀ d ∈ catchBlueScreen psramSize ch table.cmds inputs, d.DecidedBy register := by
  intro h
  have hrun : (catchBlueScreen 0 channelStart oneRequire.cmds
      [⟨false, [[fourBytes 1 1 0 0 0]], true, []⟩, ⟨false, [], true, []⟩]).map (fun d =>
        (d.dumped, d.requires, d.answers.map fun r => (r.accepted, r.value))) =
        [(false, [⟨0x51600000, 1, 1⟩], [(true, 1)])] := by decide
  obtain ⟨d, hdecisions, hd⟩ := List.map_eq_singleton_iff.mp hrun
  simp only [Prod.mk.injEq] at hd
  obtain ⟨hdumped, hrequires, hanswers⟩ := hd
  obtain ⟨r, hr, hvalue⟩ := List.map_eq_singleton_iff.mp hanswers
  simp only [Prod.mk.injEq] at hvalue
  have hcarries : ∀ d' ∈ [d], d'.Carries fun _ => 1 := by
    rw [List.forall_mem_singleton, Decision.Carries, hrequires, hr, List.zip_cons_cons, List.zip_nil_left,
      List.forall_mem_singleton]
    exact hvalue
  have hdecided := h 0 channelStart oneRequire _ (fun _ => 1) (by rw [hdecisions]; exact hcarries) d
    (by rw [hdecisions]; exact List.mem_singleton_self d)
  rw [Decision.DecidedBy, hdumped, hrequires, List.forall_mem_singleton] at hdecided
  exact absurd (hdecided.mpr (by decide)) Bool.false_ne_true

end QLog.Ec800g
