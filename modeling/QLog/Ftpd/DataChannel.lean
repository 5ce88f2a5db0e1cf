import QLog.Ftpd.Privsock
import QLog.Ftpd.Upload

/-! # Choosing the data connection

`PORT` leaves an address and `PASV` a listening socket, and neither takes back the other. A transfer asks whether there
is an address, for which it asks whether there is a listening socket, for which it asks whether there is an address. So
with both the session asks for ever; with one it uses that one, and both are gone after it. -/

namespace QLog.Ftpd

open Library

/-- What a session has of the data connection: `port_addr`, `data_fd`, and `pasv_listen_fd` of the process of nobody. -/
structure Channel where
  portAddr : Option (UInt16 × InAddr)
  dataFd : Option Nat
  pasvListenFd : Option Nat
  deriving DecidableEq

/-- A call returns, or ends the process. -/
inductive Asked where
  | returns (active : Bool)
  | exits
  deriving DecidableEq

/-- `priv_sock_get_int` after `PRIV_SOCK_PASV_ACTIVE` -/
def askActive (s : Channel) (env : PrivEnv) : Bool := privResult s.pasvListenFd env .pasvActive = .active true

/-- The connection that `get_port_fd` and `get_pasv_fd` get. -/
def PrivResult.connection : PrivResult → Option Nat
  | .dataFd fd => fd
  | _ => none

mutual

/-- `port_active`; nothing if `depth` calls inside each other are not enough. -/
def portActive (s : Channel) (env : PrivEnv) : Nat → Option Asked
  | 0 => none
  | depth + 1 =>
      if s.portAddr.isSome then
        match pasvActive s env depth with
        | none => none
        | some (.returns false) => some (.returns true)
        | some _ => some .exits
      else some (.returns false)

/-- `pasv_active` -/
def pasvActive (s : Channel) (env : PrivEnv) : Nat → Option Asked
  | 0 => none
  | depth + 1 =>
      if askActive s env then
        match portActive s env depth with
        | none => none
        | some (.returns port) => some (.returns !port)
        | some .exits => some .exits
      else some (.returns false)

end

/-- `get_port_fd` -/
def getPortFd (s : Channel) (env : PrivEnv) : Channel × Bool :=
  match s.portAddr with
  | none => (s, false)
  | some (port, addr) =>
      match (privResult s.pasvListenFd env (.getDataSock port addr)).connection with
      | none => (s, false)
      | some fd => ({ s with dataFd := some fd }, true)

/-- `get_pasv_fd` -/
def getPasvFd (s : Channel) (env : PrivEnv) : Channel × Bool :=
  let s' := { s with pasvListenFd := listenFdAfter s.pasvListenFd env .pasvAccept }
  match (privResult s.pasvListenFd env .pasvAccept).connection with
  | none => (s', false)
  | some fd => ({ s' with dataFd := some fd }, true)

/-- What comes of a transfer command: it goes on, or the process ends. -/
inductive Transfer where
  | goesOn (fd : TransferFd)
  | exits
  deriving DecidableEq

/-- What follows on an answer. -/
def afterAsking (asked : Option Asked) (s : Channel) (next : Bool → Option (Channel × Transfer)) :
    Option (Channel × Transfer) :=
  match asked with
  | none => none
  | some .exits => some (s, .exits)
  | some (.returns active) => next active

/-- `get_transfer_fd` -/
def getTransferFd (s : Channel) (env : PrivEnv) (depth : Nat) : Option (Channel × Transfer) :=
  afterAsking (portActive s env depth) s fun port =>
  afterAsking (if port then some (.returns true) else pasvActive s env depth) s fun chosen =>
  if !chosen then some (s, .goesOn .notChosen)
  else
    afterAsking (portActive s env depth) s fun port =>
    let r := if port then getPortFd s env else (s, true)
    afterAsking (pasvActive r.1 env depth) r.1 fun pasv =>
    let r' := if pasv then getPasvFd r.1 env else (r.1, true)
    some ({ r'.1 with portAddr := none }, .goesOn (if r.2 && r'.2 then .connected else .failed))

/-- The commands that concern the data connection; the transfers are `RETR`, `STOR`, `APPE`, `LIST` and `NLST`. -/
inductive DataCommand where
  | port (port : UInt16) (addr : InAddr)
  | pasv
  | transfer
  deriving DecidableEq

/-- One command, and not what a transfer does with its connection; a session that still asks is gone. -/
def dataStep (depth : Nat) (s : Option Channel) (command : DataCommand × PrivEnv) : Option Channel × List Transfer :=
  match s with
  | none => (none, [])
  | some s =>
      match command.1 with
      | .port port addr => (some { s with portAddr := some (port, addr) }, [])
      | .pasv => (some { s with pasvListenFd := listenFdAfter s.pasvListenFd command.2 .pasvListen }, [])
      | .transfer =>
          match getTransferFd s command.2 depth with
          | none => (none, [])
          | some (s, transfer) => (some s, [transfer])

/-- A session that begins. -/
def channelStart : Channel := ⟨none, none, none⟩

/-! ## The history of a session -/

/-- The commands since the last transfer, the latest first. -/
def recent (history : List (DataCommand × PrivEnv)) : List (DataCommand × PrivEnv) :=
  history.reverse.takeWhile (·.1 ≠ .transfer)

/-- The address of a `PORT`. -/
def portOf (command : DataCommand × PrivEnv) : Option (UInt16 × InAddr) :=
  match command.1 with
  | .port port addr => some (port, addr)
  | _ => none

/-- The listening socket of a `PASV`. -/
def listenOf (command : DataCommand × PrivEnv) : Option Nat :=
  match command.1 with
  | .pasv => some command.2.listenFd
  | _ => none

/-- A transfer after some commands comes with both a `PORT` and a `PASV`. -/
def BothChosen (history : List (DataCommand × PrivEnv)) : Prop :=
  ((recent history).findSome? portOf).isSome ∧ ((recent history).findSome? listenOf).isSome

instance (history : List (DataCommand × PrivEnv)) : Decidable (BothChosen history) :=
  inferInstanceAs (Decidable (_ ∧ _))

/-- What a transfer comes to after some commands, unless both were chosen. -/
def transferAfter (history : List (DataCommand × PrivEnv)) (env : PrivEnv) : TransferFd :=
  match (recent history).findSome? portOf, (recent history).findSome? listenOf with
  | none, none => .notChosen
  | some (port, addr), _ => if (env.connect port (inetNtoa addr)).isSome then .connected else .failed
  | none, some fd => if (env.accept fd).isSome then .connected else .failed

/-- What the transfers of a history come to, up to the first one for which both were chosen. -/
def transfersAfter : List (DataCommand × PrivEnv) → List (DataCommand × PrivEnv) → List TransferFd
  | _, [] => []
  | before, command :: rest =>
      if command.1 = .transfer then
        if BothChosen before then [] else transferAfter before command.2 :: transfersAfter (before ++ [command]) rest
      else transfersAfter (before ++ [command]) rest

/-! ## Asking -/

section Asking

variable {s : Channel} {env : PrivEnv} {depth : Nat}

theorem askActive_eq (s : Channel) (env : PrivEnv) : askActive s env = s.pasvListenFd.isSome := by
  rw [askActive, privResult]
  simp

/-- With both, neither call ever returns. -/
theorem asking_of_both (hport : s.portAddr.isSome = true) (hlisten : s.pasvListenFd.isSome = true) (depth : Nat) :
    portActive s env depth = none ∧ pasvActive s env depth = none := by
  induction depth with
  | zero => exact ⟨rfl, rfl⟩
  | succ depth ih =>
      constructor
      · rw [portActive, if_pos hport, ih.2]
      · rw [pasvActive, askActive_eq, if_pos hlisten, ih.1]

/-- With at most one, both calls return. -/
theorem asking_of_not_both (s : Channel) (env : PrivEnv) (depth : Nat)
    (h : ¬ (s.portAddr.isSome = true ∧ s.pasvListenFd.isSome = true)) :
    portActive s env (depth + 2) = some (.returns s.portAddr.isSome) ∧
      pasvActive s env (depth + 2) = some (.returns s.pasvListenFd.isSome) := by
  rw [portActive, pasvActive, pasvActive, portActive, askActive_eq]
  cases hport : s.portAddr.isSome <;> cases hlisten : s.pasvListenFd.isSome
  · exact ⟨rfl, rfl⟩
  · exact ⟨rfl, rfl⟩
  · exact ⟨rfl, rfl⟩
  · exact absurd ⟨hport, hlisten⟩ h

/-- With both, a transfer never gets its connection. -/
theorem getTransferFd_of_both (hport : s.portAddr.isSome = true) (hlisten : s.pasvListenFd.isSome = true) :
    getTransferFd s env depth = none := by
  rw [getTransferFd, (asking_of_both hport hlisten depth).1, afterAsking]

/-- With neither, there is nothing to transfer on. -/
theorem getTransferFd_of_neither (hport : s.portAddr = none) (hlisten : s.pasvListenFd = none) :
    getTransferFd s env (depth + 2) = some (s, .goesOn .notChosen) := by
  obtain ⟨hask, hask'⟩ := asking_of_not_both s env depth (by rw [hport]; simp)
  rw [getTransferFd, hask, afterAsking, hport, Option.isSome_none, if_neg Bool.false_ne_true, hask', afterAsking,
    hlisten]
  rfl

/-- `get_port_fd` touches neither the address nor the listening socket. -/
theorem getPortFd_eq (env : PrivEnv) {port : UInt16} {addr : InAddr} (hport : s.portAddr = some (port, addr)) :
    (getPortFd s env).2 = (env.connect port (inetNtoa addr)).isSome ∧
      (getPortFd s env).1.portAddr = s.portAddr ∧ (getPortFd s env).1.pasvListenFd = s.pasvListenFd := by
  rw [getPortFd, hport]
  dsimp only
  rw [privResult, PrivResult.connection]
  cases env.connect port (inetNtoa addr) with
  | none => exact ⟨rfl, hport, rfl⟩
  | some fd => exact ⟨rfl, rfl, rfl⟩

/-- `get_pasv_fd` closes the listening socket. -/
theorem getPasvFd_eq (env : PrivEnv) {fd : Nat} (hlisten : s.pasvListenFd = some fd) :
    (getPasvFd s env).2 = (env.accept fd).isSome ∧ (getPasvFd s env).1.pasvListenFd = none := by
  rw [getPasvFd, hlisten]
  dsimp only
  rw [privResult, Option.bind_some, PrivResult.connection]
  cases env.accept fd with
  | none => exact ⟨rfl, rfl⟩
  | some fd => exact ⟨rfl, rfl⟩

/-- With an address, the connection is made to it. -/
theorem getTransferFd_of_port (env : PrivEnv) (depth : Nat) {port : UInt16} {addr : InAddr}
    (hport : s.portAddr = some (port, addr))
    (hlisten : s.pasvListenFd = none) :
    ∃ s', getTransferFd s env (depth + 2) =
        some (s', .goesOn (if (env.connect port (inetNtoa addr)).isSome then .connected else .failed)) ∧
      s'.portAddr = none ∧ s'.pasvListenFd = none := by
  obtain ⟨hask, -⟩ := asking_of_not_both s env depth (by rw [hlisten]; simp)
  obtain ⟨hfd, hport', hlisten'⟩ := getPortFd_eq env hport
  rw [hlisten] at hlisten'
  -- connecting does not change the answers
  obtain ⟨-, hask'⟩ := asking_of_not_both (getPortFd s env).1 env depth
    (by rw [hlisten']; simp)
  refine ⟨{ (getPortFd s env).1 with portAddr := none }, ?_, rfl, hlisten'⟩
  rw [getTransferFd, hask, hport, Option.isSome_some]
  simp only [afterAsking, if_true, Bool.not_true, Bool.false_eq_true, if_false]
  rw [hask', hlisten', hfd]
  simp [hlisten']

/-- With a listening socket, a connection is accepted on it, and the socket is closed. -/
theorem getTransferFd_of_pasv (env : PrivEnv) (depth : Nat) {fd : Nat} (hport : s.portAddr = none)
    (hlisten : s.pasvListenFd = some fd) :
    ∃ s', getTransferFd s env (depth + 2) =
        some (s', .goesOn (if (env.accept fd).isSome then .connected else .failed)) ∧
      s'.portAddr = none ∧ s'.pasvListenFd = none := by
  obtain ⟨hask, hask'⟩ := asking_of_not_both s env depth (by rw [hport]; simp)
  obtain ⟨hfd, hlisten'⟩ := getPasvFd_eq env hlisten
  refine ⟨{ (getPasvFd s env).1 with portAddr := none }, ?_, rfl, hlisten'⟩
  rw [getTransferFd, hask, hport, Option.isSome_none]
  simp only [afterAsking, Bool.false_eq_true, if_false]
  rw [hask', hlisten, Option.isSome_some]
  simp only [Bool.not_true, Bool.false_eq_true, if_true, if_false, Bool.true_and]
  rw [hfd]

end Asking

/-! ## The history -/

section History

variable {history rest : List (DataCommand × PrivEnv)} {command : DataCommand × PrivEnv}

theorem recent_transfer (h : command.1 = .transfer) : recent (history ++ [command]) = [] := by
  rw [recent, List.reverse_append, List.reverse_singleton, List.singleton_append,
    List.takeWhile_cons_of_neg (by simp [h])]

theorem recent_other (h : command.1 ≠ .transfer) : recent (history ++ [command]) = command :: recent history := by
  rw [recent, List.reverse_append, List.reverse_singleton, List.singleton_append,
    List.takeWhile_cons_of_pos (by simp [h])]
  rfl

/-- The session has what has been chosen since the last transfer. -/
structure Chosen (s : Channel) (history : List (DataCommand × PrivEnv)) : Prop where
  port : s.portAddr = (recent history).findSome? portOf
  listen : s.pasvListenFd = (recent history).findSome? listenOf

theorem chosen_start : Chosen channelStart [] := ⟨rfl, rfl⟩

/-- Where nothing is chosen after a transfer. -/
theorem chosen_transfer {s : Channel} (hport : s.portAddr = none) (hlisten : s.pasvListenFd = none)
    (h : command.1 = .transfer) : Chosen s (history ++ [command]) := by
  constructor
  · rw [recent_transfer h, hport]; rfl
  · rw [recent_transfer h, hlisten]; rfl

theorem Chosen.both_iff {s : Channel} (h : Chosen s history) :
    BothChosen history ↔ s.portAddr.isSome = true ∧ s.pasvListenFd.isSome = true := by
  rw [BothChosen, h.port, h.listen]

/-- A command that is not a transfer. -/
theorem Chosen.other {s : Channel} (h : Chosen s history) (hcommand : command.1 ≠ .transfer) (depth : Nat) :
    ∃ s', dataStep depth (some s) command = (some s', []) ∧ Chosen s' (history ++ [command]) := by
  obtain ⟨what, env⟩ := command
  cases what with
  | transfer => exact absurd rfl hcommand
  | port port addr =>
      refine ⟨_, rfl, ?_, ?_⟩
      · rw [recent_other hcommand]; rfl
      · rw [recent_other hcommand]; exact h.listen
  | pasv =>
      refine ⟨_, rfl, ?_, ?_⟩
      · rw [recent_other hcommand]; exact h.port
      · rw [recent_other hcommand]; rfl

/-- A transfer for which both were chosen. -/
theorem Chosen.both {s : Channel} (h : Chosen s history) (hcommand : command.1 = .transfer)
    (hboth : BothChosen history) (depth : Nat) : dataStep depth (some s) command = (none, []) := by
  obtain ⟨hport, hlisten⟩ := h.both_iff.mp hboth
  rw [dataStep, hcommand]
  dsimp only
  rw [getTransferFd_of_both hport hlisten]

/-- A transfer for which not both were chosen. -/
theorem Chosen.transfer {s : Channel} (h : Chosen s history) (hcommand : command.1 = .transfer)
    (hboth : ¬ BothChosen history) (depth : Nat) :
    ∃ s', dataStep (depth + 2) (some s) command = (some s', [.goesOn (transferAfter history command.2)]) ∧
      Chosen s' (history ++ [command]) := by
  rw [h.both_iff] at hboth
  rw [dataStep, hcommand, transferAfter, ← h.port, ← h.listen]
  dsimp only
  rcases hport : s.portAddr with _ | ⟨port, addr⟩
  · rcases hlisten : s.pasvListenFd with _ | fd
    · rw [getTransferFd_of_neither hport hlisten]
      exact ⟨s, rfl, chosen_transfer hport hlisten hcommand⟩
    · obtain ⟨s', hget, hport', hlisten'⟩ := getTransferFd_of_pasv command.2 depth hport hlisten
      rw [hget]
      exact ⟨s', rfl, chosen_transfer hport' hlisten' hcommand⟩
  · have hlisten : s.pasvListenFd = none := by
      cases hlisten : s.pasvListenFd with
      | none => rfl
      | some fd => exact absurd ⟨by rw [hport]; rfl, by rw [hlisten]; rfl⟩ hboth
    obtain ⟨s', hget, hport', hlisten'⟩ := getTransferFd_of_port command.2 depth hport hlisten
    rw [hget, hlisten]
    exact ⟨s', rfl, chosen_transfer hport' hlisten' hcommand⟩

/-- A session that still asks puts out nothing more. -/
theorem runSteps_asking (depth : Nat) (rest : List (DataCommand × PrivEnv)) :
    runSteps (dataStep depth) none rest = (none, []) := by
  induction rest with
  | nil => rfl
  | cons command rest ih => rw [runSteps_cons, dataStep, ih]; rfl

/-- There is a transfer for which both were chosen. -/
def AsksForEver (before rest : List (DataCommand × PrivEnv)) : Prop :=
  ∃ front env back, rest = front ++ (.transfer, env) :: back ∧ BothChosen (before ++ front)

theorem asksForEver_cons : AsksForEver history (command :: rest) ↔
    command.1 = .transfer ∧ BothChosen history ∨ AsksForEver (history ++ [command]) rest := by
  constructor
  · rintro ⟨front, env, back, hsplit, hboth⟩
    cases front with
    | nil =>
        obtain ⟨rfl, rfl⟩ := List.cons_eq_cons.mp hsplit
        rw [List.append_nil] at hboth
        exact .inl ⟨rfl, hboth⟩
    | cons first front =>
        obtain ⟨rfl, rfl⟩ := List.cons_eq_cons.mp hsplit
        refine .inr ⟨front, env, back, rfl, ?_⟩
        rwa [List.append_assoc, List.singleton_append]
  · rintro (⟨htransfer, hboth⟩ | ⟨front, env, back, rfl, hboth⟩)
    · refine ⟨[], command.2, rest, ?_, ?_⟩
      · rw [List.nil_append, ← htransfer]
      · rwa [List.append_nil]
    · refine ⟨command :: front, env, back, rfl, ?_⟩
      rwa [List.append_assoc, List.singleton_append] at hboth

/-- A run from a session with a history. -/
theorem Chosen.run {s : Channel} (h : Chosen s history) (depth : Nat) (rest : List (DataCommand × PrivEnv)) :
    (runSteps (dataStep (depth + 2)) (some s) rest).2 = (transfersAfter history rest).map .goesOn ∧
      ((runSteps (dataStep (depth + 2)) (some s) rest).1 = none ↔ AsksForEver history rest) := by
  induction rest generalizing s history with
  | nil =>
      refine ⟨rfl, fun hnone => absurd hnone (Option.some_ne_none s), ?_⟩
      rintro ⟨front, env, back, hsplit, -⟩
      exact absurd hsplit (List.append_ne_nil_of_right_ne_nil front (List.cons_ne_nil _ _)).symm
  | cons command rest ih =>
      rw [runSteps_cons, prepend_fst, prepend_snd, transfersAfter, asksForEver_cons]
      by_cases hcommand : command.1 = .transfer
      · rw [if_pos hcommand]
        by_cases hboth : BothChosen history
        · rw [h.both hcommand hboth, runSteps_asking, if_pos hboth]
          exact ⟨rfl, fun _ => .inl ⟨hcommand, hboth⟩, fun _ => rfl⟩
        · obtain ⟨s', hstep, h'⟩ := h.transfer hcommand hboth depth
          obtain ⟨hout, hasks⟩ := ih h'
          rw [hstep, hout, hasks, if_neg hboth]
          exact ⟨rfl, .inr, fun hor => hor.resolve_left fun hand => hboth hand.2⟩
      · obtain ⟨s', hstep, h'⟩ := h.other hcommand (depth + 2)
        obtain ⟨hout, hasks⟩ := ih h'
        rw [hstep, hout, hasks, if_neg hcommand]
        exact ⟨rfl, .inr, fun hor => hor.resolve_left fun hand => hcommand hand.1⟩

end History

/-- **Which connection a transfer uses.** In every session, and however deep the calls may be nested from two on: each
transfer uses what was chosen last since the transfer before it, and asks for ever if that is both an address and a
listening socket; the process never ends here. -/
theorem transfers_use_chosen (history : List (DataCommand × PrivEnv)) (depth : Nat) :
    (runSteps (dataStep (depth + 2)) (some channelStart) history).2 = (transfersAfter [] history).map .goesOn ∧
      ((runSteps (dataStep (depth + 2)) (some channelStart) history).1 = none ↔
        ∃ front env back, history = front ++ (.transfer, env) :: back ∧ BothChosen front) :=
  chosen_start.run depth history

end QLog.Ftpd
