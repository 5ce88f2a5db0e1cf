import QLog.Library.CString
import QLog.Library.LittleEndian
import QLog.Library.Transducer

/-! # The pair of processes

A session is served by two processes: one handles the commands, the other, which runs as nobody, listens and connects
for it. They talk over a pair of sockets. A request is a byte, for one of them followed by a number and a text; the
process of nobody reads it byte by byte, and what it sends back is read item by item. However the writing and reading
of the two is interleaved, the handling process gets what calling the operations itself would have given. -/

namespace QLog.Ftpd

open Library

/-! ## The requests -/

/-- `struct in_addr` -/
structure InAddr where
  b0 : UInt8
  b1 : UInt8
  b2 : UInt8
  b3 : UInt8
  deriving DecidableEq

/-- `inet_ntoa` -/
def inetNtoa (addr : InAddr) : List UInt8 :=
  decimalText addr.b0.toNat ++ 0x2e :: (decimalText addr.b1.toNat ++ 0x2e ::
    (decimalText addr.b2.toNat ++ 0x2e :: decimalText addr.b3.toNat))

/-- `PRIV_SOCK_GET_DATA_SOCK` with the port and the address, `PRIV_SOCK_PASV_ACTIVE`, `PRIV_SOCK_PASV_LISTEN`,
`PRIV_SOCK_PASV_ACCEPT` -/
inductive PrivRequest where
  | getDataSock (port : UInt16) (addr : InAddr)
  | pasvActive
  | pasvListen
  | pasvAccept
  deriving DecidableEq

/-- `priv_sock_send_buf` -/
def privSockSendBuf (buf : List UInt8) : List UInt8 := leBytes 4 buf.length ++ buf

/-- What the handling process sends: `priv_sock_send_cmd`, and `priv_sock_send_int` and `priv_sock_send_buf`. -/
def PrivRequest.bytes : PrivRequest → List UInt8
  | .getDataSock port addr => 1 :: (leBytes 4 port.toNat ++ privSockSendBuf (inetNtoa addr))
  | .pasvActive => [2]
  | .pasvListen => [3]
  | .pasvAccept => [4]

/-- What a request meets: the connection to an address, a listening socket with its port, and the connection that is
accepted on a socket. An operation that does not return, because one of its calls comes to `ERR_EXIT`, is none. -/
structure PrivEnv where
  connect : UInt16 → List UInt8 → Option Nat
  listenFd : Nat
  port : UInt16
  accept : Nat → Option Nat

/-- What is sent back: a byte, and with one a descriptor. -/
structure Item where
  byte : UInt8
  fd : Option Nat
  deriving DecidableEq

/-- What the handling process gets from a request: a connection or none, whether there is a listening socket, or its
port. -/
inductive PrivResult where
  | dataFd (fd : Option Nat)
  | active (active : Bool)
  | port (port : UInt16)
  deriving DecidableEq

/-! ## The process of nobody -/

/-- `priv_sock_send_int` -/
def privSockSendInt (n : Nat) : List Item := (leBytes 4 n).map (⟨·, none⟩)

/-- `priv_sock_send_result`, and `priv_sock_send_fd`, which sends a zero byte along. -/
def privSockSendResult : Option Nat → List Item
  | none => [⟨2, none⟩]
  | some fd => [⟨1, none⟩, ⟨0, some fd⟩]

def privopPasvGetDataSock (port : UInt16) (ip : List UInt8) (pasvListenFd : Option Nat) (env : PrivEnv) :
    Option Nat × List Item :=
  (pasvListenFd, privSockSendResult (env.connect port ip))

def privopPasvActive (pasvListenFd : Option Nat) (_ : PrivEnv) : Option Nat × List Item :=
  (pasvListenFd, privSockSendInt (if pasvListenFd.isSome then 1 else 0))

def privopPasvListen (_ : Option Nat) (env : PrivEnv) : Option Nat × List Item :=
  (some env.listenFd, privSockSendInt env.port.toNat)

/-- Without a listening socket nothing can be accepted. -/
def privopPasvAccept (pasvListenFd : Option Nat) (env : PrivEnv) : Option Nat × List Item :=
  (none, privSockSendResult (pasvListenFd.bind env.accept))

/-- What the process of nobody is reading. -/
inductive Awaiting where
  /-- `priv_sock_get_cmd` -/
  | command
  /-- `priv_sock_get_int` -/
  | port (got : List UInt8)
  /-- `priv_sock_get_int` in `priv_sock_recv_buf` -/
  | length (port : UInt16) (got : List UInt8)
  /-- the rest of `priv_sock_recv_buf` -/
  | ip (port : UInt16) (length : Nat) (got : List UInt8)
  | exited
  deriving DecidableEq

/-- The process of nobody, with what its requests will meet. -/
structure Nobody where
  pasvListenFd : Option Nat
  awaiting : Awaiting
  envs : List PrivEnv

/-- A request has been read. -/
def Nobody.serve (s : Nobody) (privop : Option Nat → PrivEnv → Option Nat × List Item) : Nobody × List Item :=
  match s.envs with
  | [] => (s, [])
  | env :: envs => (⟨(privop s.pasvListenFd env).1, .command, envs⟩, (privop s.pasvListenFd env).2)

/-- `sizeof(ip)` -/
def sizeofIp : Nat := 16

/-- `handle_parent` when it has read one byte more. -/
def handleParent (s : Nobody) (b : UInt8) : Nobody × List Item :=
  match s.awaiting with
  | .command =>
      if b = 1 then ({ s with awaiting := .port [] }, [])
      else if b = 2 then s.serve privopPasvActive
      else if b = 3 then s.serve privopPasvListen
      else if b = 4 then s.serve privopPasvAccept
      else (s, [])
  | .port got =>
      if got.length + 1 < 4 then ({ s with awaiting := .port (got ++ [b]) }, [])
      -- the number is cut to an unsigned short
      else ({ s with awaiting := .length (UInt16.ofNat (ofLeBytes (got ++ [b]))) [] }, [])
  | .length port got =>
      if got.length + 1 < 4 then ({ s with awaiting := .length port (got ++ [b]) }, [])
      else if sizeofIp < ofLeBytes (got ++ [b]) then ({ s with awaiting := .exited }, [])
      else if ofLeBytes (got ++ [b]) = 0 then s.serve (privopPasvGetDataSock port [])
      else ({ s with awaiting := .ip port (ofLeBytes (got ++ [b])) [] }, [])
  | .ip port length got =>
      if got.length + 1 < length then ({ s with awaiting := .ip port length (got ++ [b]) }, [])
      else s.serve (privopPasvGetDataSock port (got ++ [b]))
  | .exited => (s, [])

/-! ## The handling process -/

/-- `priv_sock_get_result` and `priv_sock_recv_fd` in `get_port_fd` and `get_pasv_fd`, once all of it is there. -/
def recvDataFd : List Item → Option PrivResult
  | [] => none
  | result :: sent =>
      if result.byte = 1 then sent.head?.map fun item => .dataFd item.fd
      else some (.dataFd none)

/-- `priv_sock_get_int`, once all of it is there. -/
def recvInt (got : List Item) : Option Nat :=
  if got.length < 4 then none else some (ofLeBytes (got.map (·.byte)))

/-- What `get_port_fd`, `pasv_active`, `do_pasv` and `get_pasv_fd` make of what has been received. -/
def received (request : PrivRequest) (got : List Item) : Option PrivResult :=
  match request with
  | .getDataSock _ _ => recvDataFd got
  | .pasvActive => (recvInt got).map fun active => .active (active ≠ 0)
  | .pasvListen => (recvInt got).map fun port => .port (UInt16.ofNat port)
  | .pasvAccept => recvDataFd got

/-- The two processes: the requests of the handling process, of which the first is under way, with what of it is still
to be written and what has been received; what lies in the sockets; and the process of nobody. -/
structure Pair where
  requests : List PrivRequest
  toWrite : List UInt8
  got : List Item
  toParent : List UInt8
  toChild : List Item
  nobody : Nobody

/-- The bytes of the request that comes first. -/
def nextBytes (requests : List PrivRequest) : List UInt8 := (requests.head?.map PrivRequest.bytes).getD []

/-- The two processes with the requests and what these will meet. -/
def pairStart (calls : List (PrivRequest × PrivEnv)) : Pair where
  requests := calls.map (·.1)
  toWrite := nextBytes (calls.map (·.1))
  got := []
  toParent := []
  toChild := []
  nobody := ⟨none, .command, calls.map (·.2)⟩

/-- The handling process writes some bytes, the process of nobody reads one, or the handling process reads an item. -/
inductive PairEvent where
  | write (n : Nat)
  | serve
  | read
  deriving DecidableEq

/-- One step of one of the two; what is put out are the results of the requests. -/
def pairStep (s : Pair) : PairEvent → Pair × List PrivResult
  | .write n => ({ s with toWrite := s.toWrite.drop n, toParent := s.toParent ++ s.toWrite.take n }, [])
  | .serve =>
      match s.toParent with
      | [] => (s, [])
      | b :: bs =>
          ({ s with toParent := bs, toChild := s.toChild ++ (handleParent s.nobody b).2,
                    nobody := (handleParent s.nobody b).1 }, [])
  | .read =>
      match s.toWrite, s.requests, s.toChild with
      | [], request :: requests, item :: items =>
          match received request (s.got ++ [item]) with
          | none => ({ s with got := s.got ++ [item], toChild := items }, [])
          | some result =>
              ({ s with requests := requests, toWrite := nextBytes requests, got := [], toChild := items }, [result])
      | _, _, _ => (s, [])

/-- A step that does something. -/
def moves (s : Pair) : PairEvent → Bool
  | .write n => 0 < min n s.toWrite.length
  | .serve => s.toParent ≠ []
  | .read => s.toWrite = [] ∧ s.requests ≠ [] ∧ s.toChild ≠ []

/-! ## Calling the operations -/

/-- The listening socket after a request, without the sockets between the processes. -/
def listenFdAfter (pasvListenFd : Option Nat) (env : PrivEnv) : PrivRequest → Option Nat
  | .getDataSock _ _ | .pasvActive => pasvListenFd
  | .pasvListen => some env.listenFd
  | .pasvAccept => none

/-- The result of a request, without the sockets between the processes. -/
def privResult (pasvListenFd : Option Nat) (env : PrivEnv) : PrivRequest → PrivResult
  | .getDataSock port addr => .dataFd (env.connect port (inetNtoa addr))
  | .pasvActive => .active pasvListenFd.isSome
  | .pasvListen => .port env.port
  | .pasvAccept => .dataFd (pasvListenFd.bind env.accept)

/-- A request as a call. -/
def privCall (pasvListenFd : Option Nat) (call : PrivRequest × PrivEnv) : Option Nat × List PrivResult :=
  (listenFdAfter pasvListenFd call.2 call.1, [privResult pasvListenFd call.2 call.1])

/-! ## A request is read -/

/-- What the process of nobody does with a request. -/
def PrivRequest.privop : PrivRequest → Option Nat → PrivEnv → Option Nat × List Item
  | .getDataSock port addr => privopPasvGetDataSock port (inetNtoa addr)
  | .pasvActive => privopPasvActive
  | .pasvListen => privopPasvListen
  | .pasvAccept => privopPasvAccept

theorem length_inetNtoa_le (addr : InAddr) : (inetNtoa addr).length ≤ 15 := by
  have hbyte : ∀ b : UInt8, (decimalText b.toNat).length ≤ 3 := fun b => by
    rw [decimalText, List.length_map]
    exact Nat.toDigits_length 10 b.toNat 3 (by decide) (Nat.lt_of_lt_of_le b.toNat_lt (by decide))
  have h0 := hbyte addr.b0
  have h1 := hbyte addr.b1
  have h2 := hbyte addr.b2
  have h3 := hbyte addr.b3
  simp only [inetNtoa, List.length_append, List.length_cons]
  omega

theorem inetNtoa_ne_nil (addr : InAddr) : inetNtoa addr ≠ [] := by
  intro h
  have hdot : (0x2e : UInt8) ∈ inetNtoa addr := List.mem_append_right _ List.mem_cons_self
  rw [h] at hdot
  exact List.not_mem_nil hdot

/-- What is still to be read of a request, at every place where the reading can be. -/
inductive Owes : Awaiting → PrivRequest → List UInt8 → Prop
  | command (request : PrivRequest) : Owes .command request request.bytes
  | port (port : UInt16) (addr : InAddr) (got rest : List UInt8) (hlen : got.length < 4)
      (h : got ++ rest = leBytes 4 port.toNat ++ privSockSendBuf (inetNtoa addr)) :
      Owes (.port got) (.getDataSock port addr) rest
  | length (port : UInt16) (addr : InAddr) (got rest : List UInt8) (hlen : got.length < 4)
      (h : got ++ rest = privSockSendBuf (inetNtoa addr)) : Owes (.length port got) (.getDataSock port addr) rest
  | ip (port : UInt16) (addr : InAddr) (got rest : List UInt8) (hlen : got.length < (inetNtoa addr).length)
      (h : got ++ rest = inetNtoa addr) : Owes (.ip port (inetNtoa addr).length got) (.getDataSock port addr) rest

/-- The first bytes of a list that begins with a block, once there are as many as in the block. -/
theorem append_singleton_eq {got block rest tail : List UInt8} {b : UInt8} (h : got ++ b :: rest = block ++ tail)
    (hlen : got.length + 1 = block.length) : got ++ [b] = block ∧ rest = tail := by
  have hsplit : (got ++ [b]) ++ rest = block ++ tail := by rw [List.append_assoc, List.singleton_append, h]
  exact List.append_inj hsplit (by rw [List.length_append, List.length_singleton, hlen])

section Reading

variable {s : Nobody} {request : PrivRequest} {b : UInt8} {rest : List UInt8}

/-- The byte of a request. -/
theorem handleParent_command (hs : s.awaiting = .command) (h : b :: rest = request.bytes) :
    (rest = [] ∧ handleParent s b = s.serve request.privop) ∨
      ∃ awaiting, Owes awaiting request rest ∧ handleParent s b = ({ s with awaiting := awaiting }, []) := by
  rw [handleParent, hs]
  cases request with
  | getDataSock port addr =>
      obtain ⟨rfl, rfl⟩ := List.cons_eq_cons.mp h
      exact .inr ⟨.port [], .port port addr [] _ (by decide) rfl, rfl⟩
  | pasvActive =>
      obtain ⟨rfl, rfl⟩ := List.cons_eq_cons.mp h
      exact .inl ⟨rfl, rfl⟩
  | pasvListen =>
      obtain ⟨rfl, rfl⟩ := List.cons_eq_cons.mp h
      exact .inl ⟨rfl, rfl⟩
  | pasvAccept =>
      obtain ⟨rfl, rfl⟩ := List.cons_eq_cons.mp h
      exact .inl ⟨rfl, rfl⟩

variable {port : UInt16} {addr : InAddr} {got : List UInt8}

/-- A byte of the port. -/
theorem handleParent_port (hs : s.awaiting = .port got) (hlen : got.length < 4)
    (h : got ++ b :: rest = leBytes 4 port.toNat ++ privSockSendBuf (inetNtoa addr)) :
    ∃ awaiting, Owes awaiting (.getDataSock port addr) rest ∧
      handleParent s b = ({ s with awaiting := awaiting }, []) := by
  rw [handleParent, hs]
  dsimp only
  by_cases hmore : got.length + 1 < 4
  · rw [if_pos hmore]
    refine ⟨.port (got ++ [b]), .port port addr _ rest ?_ ?_, rfl⟩
    · rwa [List.length_append, List.length_singleton]
    · rw [List.append_assoc, List.singleton_append, h]
  · rw [if_neg hmore]
    obtain ⟨hport, hrest⟩ := append_singleton_eq h (by rw [length_leBytes]; omega)
    refine ⟨.length port [], .length port addr [] rest (by decide) hrest, ?_⟩
    rw [hport, ofLeBytes_leBytes 4 _ (Nat.lt_of_lt_of_le port.toNat_lt (by decide)), UInt16.ofNat_toNat]

/-- A byte of the length. -/
theorem handleParent_length (hs : s.awaiting = .length port got) (hlen : got.length < 4)
    (h : got ++ b :: rest = privSockSendBuf (inetNtoa addr)) :
    ∃ awaiting, Owes awaiting (.getDataSock port addr) rest ∧
      handleParent s b = ({ s with awaiting := awaiting }, []) := by
  have haddr := length_inetNtoa_le addr
  have hpos := List.length_pos_of_ne_nil (inetNtoa_ne_nil addr)
  rw [handleParent, hs]
  dsimp only
  by_cases hmore : got.length + 1 < 4
  · rw [if_pos hmore]
    refine ⟨.length port (got ++ [b]), .length port addr _ rest ?_ ?_, rfl⟩
    · rwa [List.length_append, List.length_singleton]
    · rw [List.append_assoc, List.singleton_append, h]
  · obtain ⟨hlength, hrest⟩ := append_singleton_eq h (by rw [length_leBytes]; omega)
    have hvalue : ofLeBytes (got ++ [b]) = (inetNtoa addr).length := by
      rw [hlength, ofLeBytes_leBytes 4 _ (by omega)]
    -- the text fits into the array, and is not empty
    rw [if_neg hmore, hvalue, if_neg (by rw [sizeofIp]; omega), if_neg (by omega)]
    exact ⟨_, .ip port addr [] rest hpos hrest, rfl⟩

/-- A byte of the address. -/
theorem handleParent_ip (hs : s.awaiting = .ip port (inetNtoa addr).length got)
    (h : got ++ b :: rest = inetNtoa addr) :
    (rest = [] ∧ handleParent s b = s.serve (PrivRequest.getDataSock port addr).privop) ∨
      ∃ awaiting, Owes awaiting (.getDataSock port addr) rest ∧
        handleParent s b = ({ s with awaiting := awaiting }, []) := by
  have hlength : got.length + (rest.length + 1) = (inetNtoa addr).length := by
    rw [← h, List.length_append, List.length_cons]
  rw [← List.singleton_append, ← List.append_assoc] at h
  rw [handleParent, hs]
  dsimp only
  by_cases hmore : got.length + 1 < (inetNtoa addr).length
  · rw [if_pos hmore]
    refine .inr ⟨_, .ip port addr (got ++ [b]) rest ?_ h, rfl⟩
    rwa [List.length_append, List.length_singleton]
  · obtain rfl : rest = [] := List.length_eq_zero_iff.mp (by omega)
    rw [List.append_nil] at h
    rw [if_neg hmore, h]
    exact .inl ⟨rfl, rfl⟩

/-- One byte of a request: either it was the last one, and the request is served, or there are more to come. -/
theorem handleParent_owes (h : Owes s.awaiting request (b :: rest)) :
    (rest = [] ∧ handleParent s b = s.serve request.privop) ∨
      ∃ awaiting, Owes awaiting request rest ∧ handleParent s b = ({ s with awaiting := awaiting }, []) := by
  generalize hs : s.awaiting = awaiting at h
  generalize hbytes : b :: rest = bytes at h
  cases h with
  | command => exact handleParent_command hs hbytes
  | port port addr got _ hlen h =>
      subst hbytes
      exact .inr (handleParent_port hs hlen h)
  | length port addr got _ hlen h =>
      subst hbytes
      exact .inr (handleParent_length hs hlen h)
  | ip port addr got _ hlen h =>
      subst hbytes
      exact handleParent_ip hs h

/-- Something is still to be read. -/
theorem Owes.ne_nil {awaiting : Awaiting} (h : Owes awaiting request rest) : rest ≠ [] := by
  rintro rfl
  generalize hrest : [] = rest at h
  cases h with
  | command => cases request <;> exact absurd hrest (List.cons_ne_nil _ _).symm
  | port port addr got _ hlen h =>
      rw [← hrest, List.append_nil] at h
      rw [h, List.length_append, length_leBytes] at hlen
      omega
  | length port addr got _ hlen h =>
      rw [← hrest, List.append_nil] at h
      rw [h, privSockSendBuf, List.length_append, length_leBytes] at hlen
      omega
  | ip port addr got _ hlen h =>
      rw [← hrest, List.append_nil] at h
      rw [h] at hlen
      exact Nat.lt_irrefl _ hlen

end Reading

/-! ## An answer is read -/

section Answers

variable {front back : List Item}

/-- An answer that is a number is there with its fourth byte. -/
theorem recvInt_front {n : Nat} (hn : n < 2 ^ 32) (h : privSockSendInt n = front ++ back) :
    recvInt front = if back = [] then some n else none := by
  have hlen : (privSockSendInt n).length = 4 := by rw [privSockSendInt, List.length_map, length_leBytes]
  rw [h, List.length_append] at hlen
  rw [recvInt]
  by_cases hback : back = []
  · have hbytes : (privSockSendInt n).map (·.byte) = leBytes 4 n := by
      rw [privSockSendInt, List.map_map]
      exact List.map_id _
    rw [hback, List.append_nil] at h
    rw [hback, List.length_nil] at hlen
    rw [if_neg (by omega), if_pos hback, ← h, hbytes, ofLeBytes_leBytes 4 n hn]
  · have hpos := List.length_pos_of_ne_nil hback
    rw [if_pos (by omega), if_neg hback]

/-- An answer that is a connection goes on after its first item if that says so. -/
theorem recvDataFd_front {fd : Option Nat} (h : privSockSendResult fd = front ++ back) :
    recvDataFd front = if back = [] then some (.dataFd fd) else none := by
  cases front with
  | nil =>
      rw [List.nil_append] at h
      rw [← h, if_neg (by cases fd <;> exact List.cons_ne_nil _ _)]
      rfl
  | cons result sent =>
      cases fd with
      | none =>
          obtain ⟨rfl, hnil⟩ := List.cons_eq_cons.mp h
          obtain ⟨rfl, rfl⟩ := List.append_eq_nil_iff.mp hnil.symm
          rfl
      | some fd =>
          obtain ⟨rfl, hsent⟩ := List.cons_eq_cons.mp h
          rcases List.cons_eq_append_iff.mp hsent with ⟨rfl, rfl⟩ | ⟨more, rfl, hnil⟩
          · rfl
          · obtain ⟨rfl, rfl⟩ := List.append_eq_nil_iff.mp hnil.symm
            rfl

/-- An answer is complete exactly when all of it has been received, and is then the result. -/
theorem received_front (request : PrivRequest) (pasvListenFd : Option Nat) (env : PrivEnv)
    (h : (request.privop pasvListenFd env).2 = front ++ back) :
    received request front = if back = [] then some (privResult pasvListenFd env request) else none := by
  cases request with
  | getDataSock port addr => exact recvDataFd_front h
  | pasvAccept => exact recvDataFd_front h
  | pasvActive =>
      rw [received, recvInt_front (by split_ifs <;> decide) h]
      split_ifs <;> simp_all [privResult]
  | pasvListen =>
      rw [received, recvInt_front (Nat.lt_trans env.port.toNat_lt (by decide)) h]
      split_ifs <;> simp [privResult]

theorem privop_fst (request : PrivRequest) (pasvListenFd : Option Nat) (env : PrivEnv) :
    (request.privop pasvListenFd env).1 = listenFdAfter pasvListenFd env request := by
  cases request <;> rfl

theorem privop_snd_ne_nil (request : PrivRequest) (pasvListenFd : Option Nat) (env : PrivEnv) :
    (request.privop pasvListenFd env).2 ≠ [] := fun h => by
  have hnone := @received_front [] [] request pasvListenFd env h
  rw [if_pos rfl] at hnone
  cases request <;> exact absurd hnone (by simp [received, recvDataFd, recvInt])

end Answers

/-! ## The pair -/

/-- What holds between the steps, with a listening socket and calls to come: nothing is under way, or the first request
is being written and read, or it has been served and its answer is being read. -/
inductive PairStage (pasvListenFd : Option Nat) (s : Pair) : List (PrivRequest × PrivEnv) → Prop
  | done (hwrite : s.toWrite = []) (hparent : s.toParent = []) (hchild : s.toChild = []) : PairStage pasvListenFd s []
  | asked (request : PrivRequest) (env : PrivEnv) (calls : List (PrivRequest × PrivEnv)) (hgot : s.got = [])
      (hchild : s.toChild = []) (hfd : s.nobody.pasvListenFd = pasvListenFd)
      (henvs : s.nobody.envs = env :: calls.map (·.2))
      (howes : Owes s.nobody.awaiting request (s.toParent ++ s.toWrite)) :
      PairStage pasvListenFd s ((request, env) :: calls)
  | answered (request : PrivRequest) (env : PrivEnv) (calls : List (PrivRequest × PrivEnv)) (hwrite : s.toWrite = [])
      (hparent : s.toParent = []) (hchild : s.toChild ≠ [])
      (hanswer : (request.privop pasvListenFd env).2 = s.got ++ s.toChild)
      (hnobody : s.nobody = ⟨listenFdAfter pasvListenFd env request, .command, calls.map (·.2)⟩) :
      PairStage pasvListenFd s ((request, env) :: calls)

section Steps

variable {pasvListenFd : Option Nat} {s : Pair} {todo : List (PrivRequest × PrivEnv)}

/-- Writing. -/
theorem stage_write (h : PairStage pasvListenFd s todo) (n : Nat) :
    PairStage pasvListenFd (pairStep s (.write n)).1 todo := by
  cases h with
  | done hwrite hparent hchild =>
      refine .done ?_ ?_ hchild
      · rw [pairStep, hwrite, List.drop_nil]
      · rw [pairStep, hwrite, hparent, List.take_nil, List.append_nil]
  | asked request env calls hgot hchild hfd henvs howes =>
      refine .asked request env calls hgot hchild hfd henvs ?_
      rwa [pairStep, List.append_assoc, List.take_append_drop]
  | answered request env calls hwrite hparent hchild hanswer hnobody =>
      refine .answered request env calls ?_ ?_ hchild hanswer hnobody
      · rw [pairStep, hwrite, List.drop_nil]
      · rw [pairStep, hwrite, hparent, List.take_nil, List.append_nil]

/-- Reading a byte of a request. -/
theorem stage_serve (h : PairStage pasvListenFd s todo) : PairStage pasvListenFd (pairStep s .serve).1 todo := by
  rcases hparent : s.toParent with _ | ⟨b, bs⟩
  · rwa [pairStep, hparent]
  · rw [pairStep, hparent]
    cases h with
    | done hwrite hnil hchild => rw [hnil] at hparent; cases hparent
    | answered request env calls hwrite hnil hchild hanswer hnobody => rw [hnil] at hparent; cases hparent
    | asked request env calls hgot hchild hfd henvs howes =>
        rw [hparent, List.cons_append] at howes
        rcases handleParent_owes howes with ⟨hlast, hserve⟩ | ⟨awaiting, howes', hmore⟩
        -- the last byte: the request is served
        · obtain ⟨rfl, hwrite⟩ := List.append_eq_nil_iff.mp hlast
          dsimp only
          rw [hserve, Nobody.serve, henvs, hfd, hchild]
          refine .answered request env calls hwrite rfl (privop_snd_ne_nil request pasvListenFd env) ?_ ?_
          · rw [hgot, List.nil_append, List.nil_append]
          · rw [← privop_fst]
        · dsimp only
          rw [hmore, hchild]
          exact .asked request env calls hgot rfl hfd henvs howes'

/-- The start, and what there is after an answer. -/
theorem stage_next (s : Pair) (hgot : s.got = []) (hwrite : s.toWrite = nextBytes (todo.map (·.1)))
    (hparent : s.toParent = []) (hchild : s.toChild = [])
    (hnobody : s.nobody = ⟨pasvListenFd, .command, todo.map (·.2)⟩) :
    PairStage pasvListenFd s todo := by
  cases todo with
  | nil => exact .done hwrite hparent hchild
  | cons call calls =>
      refine .asked call.1 call.2 calls hgot hchild (by rw [hnobody]) (by rw [hnobody]; rfl) ?_
      rw [hnobody, hparent, hwrite, List.nil_append]
      exact .command call.1

/-- A step that does nothing. -/
theorem pairStep_read_of_stays (h : moves s .read = false) : pairStep s .read = (s, []) := by
  rw [moves, decide_eq_false_iff_not] at h
  rw [pairStep]
  rcases hwrite : s.toWrite with _ | ⟨_, _⟩
  · rcases hrequests : s.requests with _ | ⟨_, _⟩
    · rfl
    · rcases hchild : s.toChild with _ | ⟨_, _⟩
      · rfl
      · exact absurd
          ⟨hwrite, by rw [hrequests]; exact List.cons_ne_nil _ _, by rw [hchild]; exact List.cons_ne_nil _ _⟩ h
  · rfl

/-- Reading an item of an answer: it is the last one, and the result is there, or more are to come. -/
theorem stage_read (h : PairStage pasvListenFd s todo) (hrequests : s.requests = todo.map (·.1)) :
    ∃ now later, todo = now ++ later ∧ (pairStep s .read).2 = (runSteps privCall pasvListenFd now).2 ∧
      (pairStep s .read).1.requests = later.map (·.1) ∧
      PairStage (runSteps privCall pasvListenFd now).1 (pairStep s .read).1 later := by
  cases h with
  | done hwrite hparent hchild =>
      rw [pairStep_read_of_stays (by simp [moves, hchild])]
      exact ⟨[], [], rfl, rfl, hrequests, .done hwrite hparent hchild⟩
  | asked request env calls hgot hchild hfd henvs howes =>
      rw [pairStep_read_of_stays (by simp [moves, hchild])]
      exact ⟨[], _, rfl, rfl, hrequests, .asked request env calls hgot hchild hfd henvs howes⟩
  | answered request env calls hwrite hparent hchild hanswer hnobody =>
      obtain ⟨item, items, hitems⟩ := List.exists_cons_of_ne_nil hchild
      rw [hitems, ← List.singleton_append, ← List.append_assoc] at hanswer
      have hreceived := received_front request pasvListenFd env hanswer
      rw [List.map_cons] at hrequests
      rw [pairStep, hwrite, hrequests, hitems]
      dsimp only
      by_cases hlast : items = []
      -- the next request comes up
      · rw [hreceived, if_pos hlast]
        exact ⟨[(request, env)], calls, rfl, rfl, rfl, stage_next _ rfl rfl hparent hlast hnobody⟩
      · rw [hreceived, if_neg hlast]
        exact ⟨[], (request, env) :: calls, rfl, rfl, rfl,
          .answered request env calls rfl hparent hlast hanswer hnobody⟩

/-- One step of one of the two processes. -/
theorem stage_step (h : PairStage pasvListenFd s todo) (hrequests : s.requests = todo.map (·.1)) (event : PairEvent) :
    ∃ now later, todo = now ++ later ∧ (pairStep s event).2 = (runSteps privCall pasvListenFd now).2 ∧
      (pairStep s event).1.requests = later.map (·.1) ∧
      PairStage (runSteps privCall pasvListenFd now).1 (pairStep s event).1 later := by
  cases event with
  | write n => exact ⟨[], todo, rfl, rfl, hrequests, stage_write h n⟩
  | serve =>
      have hsame : (pairStep s .serve).2 = [] ∧ (pairStep s .serve).1.requests = s.requests := by
        rw [pairStep]
        cases s.toParent <;> exact ⟨rfl, rfl⟩
      exact ⟨[], todo, rfl, hsame.1, hsame.2.trans hrequests, stage_serve h⟩
  | read => exact stage_read h hrequests

/-- Any steps of the two processes, in any order. -/
theorem stage_runSteps (events : List PairEvent) (h : PairStage pasvListenFd s todo)
    (hrequests : s.requests = todo.map (·.1)) :
    ∃ now later, todo = now ++ later ∧ (runSteps pairStep s events).2 = (runSteps privCall pasvListenFd now).2 ∧
      (runSteps pairStep s events).1.requests = later.map (·.1) ∧
      PairStage (runSteps privCall pasvListenFd now).1 (runSteps pairStep s events).1 later := by
  induction events generalizing pasvListenFd s todo with
  | nil => exact ⟨[], todo, rfl, rfl, hrequests, h⟩
  | cons event events ih =>
      obtain ⟨now, later, rfl, hout, hrequests', hstage⟩ := stage_step h hrequests event
      obtain ⟨now', later', rfl, hout', hrequests'', hstage'⟩ := ih hstage hrequests'
      refine ⟨now ++ now', later', (List.append_assoc _ _ _).symm, ?_, hrequests'', ?_⟩
      · rw [runSteps_cons, prepend_snd, hout, hout', runSteps_append, prepend_snd]
      · rwa [runSteps_append, prepend_fst]

/-- While a request is left, one of the two can make a step. -/
theorem exists_moves (h : PairStage pasvListenFd s todo) (hrequests : s.requests = todo.map (·.1)) (hne : todo ≠ []) :
    ∃ event, moves s event = true := by
  cases h with
  | done => exact absurd rfl hne
  | asked request env calls hgot hchild hfd henvs howes =>
      by_cases hparent : s.toParent = []
      · have hwrite : s.toWrite ≠ [] := by
          have hrest := howes.ne_nil
          rwa [hparent, List.nil_append] at hrest
        refine ⟨.write 1, ?_⟩
        have hpos := List.length_pos_of_ne_nil hwrite
        simp only [moves, decide_eq_true_eq]
        omega
      · exact ⟨.serve, decide_eq_true hparent⟩
  | answered request env calls hwrite hparent hchild hanswer hnobody =>
      refine ⟨.read, decide_eq_true ⟨hwrite, ?_, hchild⟩⟩
      rw [hrequests]
      exact List.cons_ne_nil _ _

end Steps

/-! ## The length of a run -/

/-- How much there is to do at most: every byte is written and read, and makes at most four items, which are read. -/
def pairWork (s : Pair) : Nat :=
  6 * (s.toWrite.length + (s.requests.tail.flatMap PrivRequest.bytes).length) + 5 * s.toParent.length +
    s.toChild.length

theorem length_serve_le (s : Nobody) (privop : Option Nat → PrivEnv → Option Nat × List Item)
    (h : ∀ fd env, (privop fd env).2.length ≤ 4) : (s.serve privop).2.length ≤ 4 := by
  rw [Nobody.serve]
  rcases s.envs with _ | ⟨env, envs⟩
  · exact Nat.zero_le _
  · exact h _ env

/-- A byte of a request makes at most four items. -/
theorem length_handleParent_le (s : Nobody) (b : UInt8) : (handleParent s b).2.length ≤ 4 := by
  have hresult : ∀ fd, (privSockSendResult fd).length ≤ 4 := fun fd => by
    cases fd
    · exact Nat.le_of_ble_eq_true rfl
    · exact Nat.le_of_ble_eq_true rfl
  have hint : ∀ n, (privSockSendInt n).length ≤ 4 := fun n => by
    rw [privSockSendInt, List.length_map, length_leBytes]
  rw [handleParent]
  rcases s.awaiting with _ | _ | _ | _ | _
  · dsimp only
    split_ifs
    · exact Nat.zero_le _
    · exact length_serve_le s _ fun _ _ => hint _
    · exact length_serve_le s _ fun _ _ => hint _
    · exact length_serve_le s _ fun _ _ => hresult _
    · exact Nat.zero_le _
  · dsimp only
    split_ifs <;> exact Nat.zero_le _
  · dsimp only
    split_ifs
    · exact Nat.zero_le _
    · exact Nat.zero_le _
    · exact length_serve_le s _ fun _ _ => hresult _
    · exact Nat.zero_le _
  · dsimp only
    split_ifs
    · exact Nat.zero_le _
    · exact length_serve_le s _ fun _ _ => hresult _
  · exact Nat.zero_le _

theorem length_flatMap_bytes (requests : List PrivRequest) : (requests.flatMap PrivRequest.bytes).length =
    (nextBytes requests).length + (requests.tail.flatMap PrivRequest.bytes).length := by
  cases requests with
  | nil => rfl
  | cons request requests => rw [List.flatMap_cons, List.length_append]; rfl

/-- Every step that does something leaves less to do. -/
theorem pairWork_pairStep (s : Pair) (event : PairEvent) :
    pairWork (pairStep s event).1 + (moves s event).toNat ≤ pairWork s := by
  cases event with
  | write n =>
      simp only [pairWork, pairStep, moves, List.length_drop, List.length_append, List.length_take]
      by_cases hn : 0 < min n s.toWrite.length
      · rw [decide_eq_true hn, Bool.toNat_true]
        omega
      · rw [decide_eq_false hn, Bool.toNat_false]
        omega
  | serve =>
      rcases hparent : s.toParent with _ | ⟨b, bs⟩
      · simp [pairStep, moves, hparent]
      · have hitems := length_handleParent_le s.nobody b
        simp only [pairWork, pairStep, moves, hparent, List.length_append, List.length_cons, ne_eq, reduceCtorEq,
          not_false_eq_true, decide_true, Bool.toNat_true]
        omega
  | read =>
      by_cases hmove : s.toWrite = [] ∧ s.requests ≠ [] ∧ s.toChild ≠ []
      · obtain ⟨hwrite, hrequests, hchild⟩ := hmove
        obtain ⟨request, requests, hrequests⟩ := List.exists_cons_of_ne_nil hrequests
        obtain ⟨item, items, hitems⟩ := List.exists_cons_of_ne_nil hchild
        have hnext := length_flatMap_bytes requests
        rw [moves, pairStep, hwrite, hrequests, hitems]
        dsimp only
        cases received request (s.got ++ [item]) with
        | none =>
            simp only [pairWork, hwrite, hrequests, hitems, List.tail_cons, List.length_cons, List.length_nil, ne_eq,
              reduceCtorEq, not_false_eq_true, and_self, decide_true, Bool.toNat_true]
            omega
        | some result =>
            simp only [pairWork, hwrite, hrequests, hitems, List.tail_cons, List.length_cons, List.length_nil, ne_eq,
              reduceCtorEq, not_false_eq_true, and_self, decide_true, Bool.toNat_true]
            omega
      · have hstays : moves s .read = false := decide_eq_false hmove
        rw [pairStep_read_of_stays hstays, hstays]
        exact Nat.le_refl _

/-- **The pair of processes works like calls.** However the steps of the two are interleaved, the results that the
handling process has got are the first ones of those that calling the operations one after the other gives; if neither
of the two can go on, it has got them all and the sockets are empty; and the steps that do something are not more than
six for every byte of the requests. -/
theorem calls_through_pair (calls : List (PrivRequest × PrivEnv)) (events : List PairEvent) :
    (runSteps pairStep (pairStart calls) events).2 <+: (runSteps privCall none calls).2 ∧
      ((∀ event, moves (runSteps pairStep (pairStart calls) events).1 event = false) →
        (runSteps pairStep (pairStart calls) events).2 = (runSteps privCall none calls).2 ∧
          (runSteps pairStep (pairStart calls) events).1.toParent = [] ∧
          (runSteps pairStep (pairStart calls) events).1.toChild = []) ∧
      countAlong pairStep moves (pairStart calls) events ≤ 6 * (calls.flatMap fun call => call.1.bytes).length := by
  obtain ⟨now, later, hcalls, hout, hrequests, hstage⟩ :=
    stage_runSteps events (stage_next (pairStart calls) rfl rfl rfl rfl rfl) rfl
  refine ⟨?_, fun hstuck => ?_, ?_⟩
  · rw [hout, hcalls, runSteps_append, prepend_snd]
    exact List.prefix_append _ _
  · have hnil : later = [] := by
      by_contra hne
      obtain ⟨event, hmoves⟩ := exists_moves hstage hrequests hne
      rw [hstuck event] at hmoves
      cases hmoves
    rw [hnil, List.append_nil] at hcalls
    rw [hnil] at hstage
    refine ⟨by rw [hout, hcalls], ?_⟩
    cases hstage with
    | done hwrite hparent hchild => exact ⟨hparent, hchild⟩
  · have hstep : ∀ (s : Pair) (event : PairEvent), True → True →
        True ∧ pairWork (pairStep s event).1 + (moves s event).toNat ≤ pairWork s :=
      fun s event _ _ => ⟨trivial, pairWork_pairStep s event⟩
    have hcount := countAlong_le pairStep hstep (pairStart calls) events trivial
      (along_of_invariant pairStep (fun _ _ (h : True) => h) (fun _ _ _ => trivial) _ _ trivial)
    have hbytes := length_flatMap_bytes (calls.map (·.1))
    have hmap : (calls.flatMap fun call => call.1.bytes) = (calls.map (·.1)).flatMap PrivRequest.bytes := by
      rw [List.flatMap_map]
    rw [hmap, hbytes]
    exact Nat.le_trans (Nat.le_add_left _ _) hcount

end QLog.Ftpd
