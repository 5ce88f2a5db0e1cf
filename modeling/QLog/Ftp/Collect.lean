import QLog.Ftp.Command
import QLog.Ftpd.Handlers
import QLog.Library.Scanf

/-! # Logs that are collected over FTP

A log is a file on the server: the client logs in once, asks for a port with `PASV`, connects to it, and sends the log
after `STOR`; the reply to the end of the log is read before the next log, or before `QUIT`. Against the FTP server of
the repository, every reply is the one that is expected, every connection is made to the port where the server listens,
and in the end the server has the logs; unless an alarm of the server ends the session, as it does when a log takes
longer than `tunable_data_connection_timeout`, or a reply does not come in one read. -/

namespace QLog.Ftp

open Library
open Ftpd (textOf CommandEnv Serving SessionTunables)

/-- The string in front of its last `c`, and what stands behind that: `strrchr`, and a zero written there. -/
def cutLast (s : List UInt8) (c : UInt8) : Option (List UInt8 × List UInt8) :=
  if c ∈ s then
    let back := (s.reverse.takeWhile (· ≠ c)).reverse
    some (s.take (s.length - back.length - 1), back)
  else none

/-- `parse_pasv_epsv` -/
def parsePasvEpsv (buff : List UInt8) : Int :=
  let s := cString buff
  if buff.getD 2 0 = 0x37 then
    let s := ((cutLast s 0x29).map Prod.fst).getD s
    match cutLast s 0x2c with
    | none => -1
    | some (s, p2) =>
        match cutLast s 0x2c with
        | none => -1
        | some (_, p1) => Library.atoi p2 + Library.atoi p1 * 256
  else
    match cutLast s 0x7c with
    | none => -1
    | some (s, _) =>
        match cutLast s 0x7c with
        | none => -1
        | some (_, p) => Library.atoi p

/-- The client's side of a control connection, and the session that serves it, if it has not ended. -/
structure Wire where
  conn : Connection
  server : Serving
  alive : Bool

/-- A call of `ftpcmd`: the codes that are expected, and the number that it returns. -/
structure Call where
  expected : List Nat
  got : Nat
  deriving DecidableEq

/-- A log: its name and its data, with what becomes of them, what `PASV` and `STOR` meet, and what `buf` has from calls
for other logs. -/
structure Log where
  name : List UInt8
  data : List UInt8
  arrivals : List Ftpd.Arrival
  pasv : CommandEnv
  stor : CommandEnv
  buf : List UInt8

/-- The user and the password, and what the commands of the login meet. -/
structure Login where
  user : List UInt8
  password : List UInt8
  userEnv : CommandEnv
  passEnv : CommandEnv
  typeEnv : CommandEnv

/-- How the bytes of a reply are read. No read has bytes of two: the next reply is sent after the client has read the
last one. -/
def Net := List UInt8 → List (List UInt8)

/-- Every reply is read at once. -/
def Net.InOneRead (net : Net) : Prop := ∀ said : Ftpd.Said, net said.bytes = [said.bytes]

section Client

variable (tunables : SessionTunables) (net : Net)

/-- `ftpcmd` with a command, which the session answers; if its alarm has ended it before, that is a reply too. -/
def exchange (w : Wire) (cmd : Command) (env : CommandEnv) : Wire × Nat :=
  if w.alive then
    let o := Ftpd.handleCommand tunables w.server cmd.text env
    let r := ftpcmd { w.conn with reads := w.conn.reads ++ o.said.flatMap fun said => net said.bytes }
      (some cmd)
    (⟨r.1, o.server, o.ending = .returned⟩, r.2.headD 0)
  else
    let r := ftpcmd w.conn (some cmd)
    ({ w with conn := r.1 }, r.2.headD 0)

/-- `ftpcmd` without a command. -/
def awaitReply (w : Wire) : Wire × Nat :=
  let r := ftpcmd w.conn none
  ({ w with conn := r.1 }, r.2.headD 0)

/-- `ftp_login`, when it is connected. -/
def ftpLogin (w : Wire) (login : Login) : Wire × List Call :=
  let greet := awaitReply w
  let user := exchange tunables net greet.1 ⟨textOf "USER", some login.user⟩ login.userEnv
  let pass : Wire × List Call :=
    if user.2 = 331 then
      let r := exchange tunables net user.1 ⟨textOf "PASS", some login.password⟩ login.passEnv
      (r.1, [⟨[230], r.2⟩])
    else (user.1, [])
  let type := exchange tunables net pass.1 ⟨textOf "TYPE I", none⟩ login.typeEnv
  (type.1, [⟨[220], greet.2⟩, ⟨[230, 331], user.2⟩] ++ pass.2 ++ [⟨[200], type.2⟩])

/-- What `STOR` meets: a connection to accept if the client has made one, and the log on it. -/
def storEnv (log : Log) (connected : Bool) : CommandEnv :=
  { log.stor with
    priv.accept := fun fd => if connected then log.stor.priv.accept fd else none
    upload.reads := Ftpd.arrive log.data log.arrivals }

/-- `ftp_send`; the client connects where the server listens if that is the port it has read. -/
def ftpSend (w : Wire) (log : Log) : Wire × List Call :=
  let pasv := exchange tunables net w ⟨textOf "PASV", none⟩ log.pasv
  let portNum := parsePasvEpsv pasv.1.conn.buf
  let connected : Bool := UInt16.ofInt portNum = log.pasv.priv.port
  let stor := exchange tunables net pasv.1 ⟨textOf "STOR", some log.name⟩ (storEnv log connected)
  (stor.1, [⟨[227], pasv.2⟩, ⟨[125, 150], stor.2⟩])

/-- `ftp_write_request`; the data are sent, and their connection closed, before the next call. -/
def ftpWriteRequest (login : Login) (on : Bool) (w : Wire) (log : Log) : Wire × List Call :=
  let w : Wire := { w with conn.buf := log.buf }
  let first : Wire × List Call :=
    if on then
      let r := awaitReply w
      (r.1, [⟨[226], r.2⟩])
    else ftpLogin tunables net w login
  let sent := ftpSend tunables net first.1 log
  (sent.1, first.2 ++ sent.2)

/-- Logs, one after the other. -/
def ftpWriteRequests (login : Login) : Bool → Wire → List Log → Wire × List Call
  | _, w, [] => (w, [])
  | on, w, log :: logs =>
      let r := ftpWriteRequest tunables net login on w log
      let rest := ftpWriteRequests login true r.1 logs
      (rest.1, r.2 ++ rest.2)

/-- `ftp_quit`, if the client has logged in. -/
def ftpQuit (on : Bool) (w : Wire) (env : CommandEnv) : Wire × List Call :=
  if on then
    let last := awaitReply w
    let quit := exchange tunables net last.1 ⟨textOf "QUIT", none⟩ env
    (quit.1, [⟨[226], last.2⟩, ⟨[221], quit.2⟩])
  else (w, [])

/-- All logs, and `ftp_quit`. -/
def collect (login : Login) (w : Wire) (logs : List Log) (quitEnv : CommandEnv) : Wire × List Call :=
  let sent := ftpWriteRequests tunables net login false w logs
  let quit := ftpQuit tunables net (logs ≠ []) sent.1 quitEnv
  (quit.1, sent.2 ++ quit.2)

end Client

/-- A connection to a session, which has sent its greeting. -/
def wireStart (net : Net) (files : Ftpd.Files) : Wire where
  conn := ⟨[], net (Ftpd.Said.bytes (.reply ⟨220, textOf "(miniftpd 0.1)"⟩)), []⟩
  server := Ftpd.servingStart files
  alive := true

/-- An argument of a command that arrives as it is, and whose replies fit into the buffers of the server. -/
structure IsArgument (arg : List UInt8) : Prop where
  no_zero : 0 ∉ arg
  no_cr : 0x0d ∉ arg
  no_lf : 0x0a ∉ arg
  short : arg.length ≤ 900

/-- Nothing goes wrong on the server with a log, no alarm ends the session, and the log arrives. -/
structure Log.Succeeds (log : Log) : Prop where
  name : IsArgument log.name
  entry : Ftpd.IsEntry log.name
  pasvInTime : log.pasv.alarm = none
  storInTime : log.stor.alarm = none
  inTime : log.stor.upload.timeout = none
  pasvNobody : log.pasv.nobody = true
  storNobody : log.stor.nobody = true
  accepted : (log.stor.priv.accept log.pasv.priv.listenFd).isSome = true
  opened : log.stor.upload.opened = true
  locked : log.stor.upload.locked = true
  truncated : log.stor.upload.truncated = true
  seeked : log.stor.upload.seeked = true
  arrives : Ftpd.Arrives log.data log.arrivals

/-- The user has an entry, the password is the right one, and no alarm ends the session. -/
structure Login.Succeeds (login : Login) (uid : Nat) (files : Ftpd.Files) : Prop where
  userInTime : login.userEnv.alarm = none
  passInTime : login.passEnv.alarm = none
  typeInTime : login.typeEnv.alarm = none
  user : IsArgument login.user
  password : IsArgument login.password
  known : login.userEnv.getpwnam login.user = some uid
  entry : login.passEnv.getpwuid uid = true
  shadow : login.passEnv.getspnam = true
  right : login.passEnv.crypt login.password = some true
  ids : login.passEnv.setIds = true
  home : login.passEnv.chdir = some files

/-! ## The port -/

section Port

/-- A string with its last `c` in it is cut there. -/
theorem cutLast_append {c : UInt8} {back : List UInt8} (hback : c ∉ back) (front : List UInt8) :
    cutLast (front ++ c :: back) c = some (front, back) := by
  have hall : ∀ d ∈ back.reverse, decide (d ≠ c) = true := by
    intro d hd
    rw [decide_eq_true_eq]
    rintro rfl
    exact hback (List.mem_reverse.mp hd)
  have htake : ((front ++ c :: back).reverse.takeWhile (· ≠ c)).reverse = back := by
    rw [List.reverse_append, List.reverse_cons, List.append_assoc, List.takeWhile_append_of_pos hall,
      List.singleton_append, List.takeWhile_cons_of_neg (by simp), List.append_nil, List.reverse_reverse]
  have hlen : (front ++ c :: back).length - back.length - 1 = front.length := by
    rw [List.length_append, List.length_cons]
    omega
  rw [cutLast, if_pos (List.mem_append_right _ List.mem_cons_self)]
  dsimp only
  rw [htake, hlen, List.take_left]

/-- A printed number is read back. -/
theorem atoi_decimalText {n : Nat} (hn : n < 2 ^ 31) : Library.atoi (decimalText n) = n := by
  obtain ⟨d, digits, hdigits⟩ := List.exists_cons_of_ne_nil (decimalText_ne_nil n)
  have hd : isDigit d = true := isDigit_of_mem_decimalText (by rw [hdigits]; exact List.mem_cons_self)
  obtain ⟨hspace, hplus, hminus⟩ := not_space_of_isDigit hd
  have hhead : (decimalText n).headD 0 = d := by rw [hdigits]; rfl
  have hdrop : (decimalText n).dropWhile isSpace = decimalText n := by
    rw [hdigits, List.dropWhile_cons_of_neg (by rw [hspace]; exact Bool.false_ne_true)]
  have hsign : dropSign (decimalText n) = decimalText n := by
    rw [dropSign, hhead, isSign, beq_eq_false_iff_ne.mpr hplus, beq_eq_false_iff_ne.mpr hminus]
    exact if_neg Bool.false_ne_true
  have htake : (decimalText n).takeWhile isDigit = decimalText n :=
    List.takeWhile_eq_self_iff.mpr fun c hc => isDigit_of_mem_decimalText hc
  have hint : toInt (min (n : Int) (2 ^ 63 - 1)) = n := by
    rw [min_eq_left (by omega), toInt]
    exact Int.bmod_eq_of_le (by omega) (by omega)
  rw [Library.atoi, scanD]
  simp only [hdrop, hsign, htake, hhead, decimalValue_decimalText, if_neg (decimalText_ne_nil n), if_neg hminus, hint,
    Option.map_some, Option.getD_some]

/-- The reply to `PASV`. -/
def pasvReply (ip : Ftpd.LocalIp) (port : UInt16) : List UInt8 := Ftpd.Said.bytes (.reply ⟨227, Ftpd.pasvText ip port⟩)

theorem not_mem_decimalText {c : UInt8} (hc : isDigit c = false) (n : Nat) : c ∉ decimalText n := fun h => by
  rw [isDigit_of_mem_decimalText h] at hc
  cases hc

/-- The numbers of the address in the reply. -/
def pasvFront (ip : Ftpd.LocalIp) : List UInt8 :=
  textOf "Entering Passive Mode (" ++ decimalText ip.v0.toNat ++ 0x2c :: decimalText ip.v1.toNat ++
    0x2c :: decimalText ip.v2.toNat ++ 0x2c :: decimalText ip.v3.toNat

/-- The reply to `PASV`: the address, the two numbers of the port, and the end. -/
theorem pasvReply_eq (ip : Ftpd.LocalIp) (port : UInt16) :
    pasvReply ip port = (([0x32, 0x32, 0x37, 0x20] ++ pasvFront ip) ++ 0x2c :: decimalText (port.toNat / 256) ++ 0x2c ::
      decimalText (port.toNat % 256)) ++ 0x29 :: [0x2e, 0x0d, 0x0a] := by
  have hcode : decimalText 227 = [0x32, 0x32, 0x37] := by decide
  have hend : textOf ")." = [0x29, 0x2e] := by decide
  rw [pasvReply, Ftpd.Said.bytes, Ftpd.pasvText, pasvFront, hcode, hend]
  simp [List.intercalate_cons_cons, List.intercalate_singleton]

theorem zero_not_mem_pasvReply (ip : Ftpd.LocalIp) (port : UInt16) : 0 ∉ pasvReply ip port := by
  have hdigits : ∀ n, 0 ∉ decimalText n := not_mem_decimalText (by decide)
  have htext : 0 ∉ textOf "Entering Passive Mode (" := by decide
  rw [pasvReply_eq, pasvFront]
  simp [hdigits, htext]

/-- **The port of `PASV` is read back**, whatever numbers stand in front of it. -/
theorem parsePasvEpsv_pasvReply (ip : Ftpd.LocalIp) (port : UInt16) (rest : List UInt8) :
    parsePasvEpsv (pasvReply ip port ++ 0 :: rest) = port.toNat := by
  have hport := port.toNat_lt
  have hstring : cString (pasvReply ip port ++ 0 :: rest) = pasvReply ip port := by
    rw [cString_append_of_not_mem (zero_not_mem_pasvReply ip port), cString_zero_cons, List.append_nil]
  have hcode : (pasvReply ip port ++ 0 :: rest).getD 2 0 = 0x37 := by rw [pasvReply_eq]; rfl
  have hcomma : ∀ n, 0x2c ∉ decimalText n := not_mem_decimalText (by decide)
  rw [parsePasvEpsv, hcode, if_pos rfl, hstring, pasvReply_eq]
  simp only [cutLast_append (show (0x29 : UInt8) ∉ [0x2e, 0x0d, 0x0a] by decide), Option.map_some, Option.getD_some]
  simp only [cutLast_append (hcomma _)]
  rw [atoi_decimalText (by omega), atoi_decimalText (by omega)]
  omega

end Port

/-! ## One command -/

section Exchange

variable {tunables : SessionTunables} {net : Net} {w : Wire} {env : CommandEnv}

/-- A call takes the reply that has come. -/
theorem ftpcmd_of_reply {conn : Connection} {code : Nat} {text : List UInt8} {reads : List (List UInt8)}
    (hcode : decimalText code = codeText code) (hrange : 100 ≤ code ∧ code < 1000) (cmd : Option Command)
    (hreads : conn.reads = Ftpd.Said.bytes (.reply ⟨code, text⟩) :: reads) :
    (ftpcmd conn cmd).2 = [code] ∧ (ftpcmd conn cmd).1.reads = reads ∧
      ∃ rest, (ftpcmd conn cmd).1.buf = Ftpd.Said.bytes (.reply ⟨code, text⟩) ++ 0 :: rest := by
  have hline : Ftpd.Said.bytes (.reply ⟨code, text⟩) = codeText code ++ 0x20 :: (text ++ crlf) := by
    rw [Ftpd.Said.bytes, hcode, List.append_assoc]
    rfl
  rw [hline] at hreads
  rw [hline]
  generalize hread : codeText code ++ 0x20 :: (text ++ crlf) = read at hreads
  have hne : read ≠ [] := by rw [← hread]; exact List.cons_ne_nil _ _
  have hlooks : looksLikeReply read = true := by
    have hdigit : isdigit (UInt8.ofNat (0x30 + code / 100)) = true := by
      rw [isdigit_iff, UInt8.toNat_ofNat']
      omega
    rw [← hread, codeText]
    generalize UInt8.ofNat (0x30 + code / 100) = digit at hdigit
    simp [looksLikeReply, hdigit]
  have hnumber : atoi 0 (read.take 3) = code := by
    rw [atoi_eq_iff hlooks hrange, ← hread]
    exact List.prefix_append _ _
  -- the blank that is put behind the code is there already
  have hblank : ∀ rest, overwrite (read ++ rest) 3 [0x20] = read ++ rest := fun rest => by
    rw [← hread]
    rfl
  have hloop : ∀ buf, readReply buf (read :: reads) =
      ((overwrite (received buf read) 3 [0x20], reads), atoi 0 ((received buf read).take 3)) := fun buf => by
    rw [readReply, if_neg hne]
    dsimp only
    rw [if_pos (by rw [isReplyLine_received hne, hlooks])]
  cases cmd with
  | none =>
      simp only [ftpcmd, hreads, hloop]
      rw [take_received hlooks, hnumber, received_eq, hblank]
      exact ⟨rfl, trivial, _, rfl⟩
  | some cmd =>
      simp only [ftpcmd, hreads, hloop]
      rw [take_received hlooks, hnumber, received_eq, hblank]
      exact ⟨rfl, trivial, _, rfl⟩

/-- The end of a line is trimmed. -/
theorem strTrimCrlf_crlf {line : List UInt8} (hcr : 0x0d ∉ line) (hlf : 0x0a ∉ line) :
    Ftpd.strTrimCrlf (line ++ crlf) = line := by
  have hsplit : line ++ crlf = line ++ [0x0d] ++ [0x0a] := by rw [crlf, List.append_assoc]; rfl
  rw [Ftpd.strTrimCrlf, hsplit, List.rdropWhile_concat_pos _ _ _ (by decide),
    List.rdropWhile_concat_pos _ _ _ (by decide), List.rdropWhile_eq_self_iff]
  intro hne hlast
  rcases of_decide_eq_true hlast with h | h
  · exact hcr (h ▸ List.getLast_mem hne)
  · exact hlf (h ▸ List.getLast_mem hne)

/-- A command with an argument is understood. -/
theorem handleLine_argument {word arg : List UInt8} (hblank : 0x20 ∉ word) (hword : IsArgument word)
    (hshort : word.length ≤ 8) (harg : IsArgument arg) :
    Ftpd.handleLine (Command.text ⟨word, some arg⟩) = Ftpd.lookup (word.map Ftpd.toupper) arg := by
  have hlen : (word ++ 0x20 :: arg ++ crlf).length ≤ 1023 := by
    have hshort' := harg.short
    simp only [List.length_append, List.length_cons, crlf, List.length_nil]
    omega
  have hno : ∀ c : UInt8, c ∉ word → c ∉ arg → c ≠ 0x20 → c ∉ word ++ 0x20 :: arg := by
    intro c hword harg hc
    rw [List.mem_append, List.mem_cons, not_or, not_or]
    exact ⟨hword, hc, harg⟩
  have hstring : cString (word ++ 0x20 :: arg ++ crlf) = word ++ 0x20 :: arg ++ crlf := by
    apply cString_of_not_mem
    rw [List.mem_append, not_or]
    exact ⟨hno 0 hword.no_zero harg.no_zero (by decide), by decide⟩
  have htext : Command.text ⟨word, some arg⟩ = word ++ 0x20 :: arg ++ crlf := List.take_of_length_le hlen
  rw [htext, Ftpd.handleLine_eq, Ftpd.commandOf, hstring,
    strTrimCrlf_crlf (hno _ hword.no_cr harg.no_cr (by decide)) (hno _ hword.no_lf harg.no_lf (by decide))]
  rw [Ftpd.takeWhile_ne_blank hblank, List.drop_length_add_append]
  rfl

/-- A command that is answered. -/
theorem exchange_of_said (hnet : net.InOneRead) {cmd : Command} (code : Nat) {text : List UInt8} {more : List Ftpd.Said}
    (halive : w.alive = true) (hreads : w.conn.reads = []) (hcode : decimalText code = codeText code)
    (hrange : 100 ≤ code ∧ code < 1000)
    (hsaid : (Ftpd.handleCommand tunables w.server cmd.text env).said = .reply ⟨code, text⟩ :: more) :
    (exchange tunables net w cmd env).2 = code ∧
      (exchange tunables net w cmd env).1.conn.reads = more.map Ftpd.Said.bytes ∧
      (exchange tunables net w cmd env).1.server = (Ftpd.handleCommand tunables w.server cmd.text env).server ∧
      (exchange tunables net w cmd env).1.alive =
        decide ((Ftpd.handleCommand tunables w.server cmd.text env).ending = .returned) ∧
      ∃ rest, (exchange tunables net w cmd env).1.conn.buf = Ftpd.Said.bytes (.reply ⟨code, text⟩) ++ 0 :: rest := by
  have hreplies : ∀ said : List Ftpd.Said, (said.flatMap fun said => net said.bytes) = said.map Ftpd.Said.bytes := by
    intro said
    rw [List.flatMap_congr fun said _ => hnet said, ← List.map_eq_flatMap]
  have hconn : ({ w.conn with
      reads := w.conn.reads ++
        (Ftpd.handleCommand tunables w.server cmd.text env).said.flatMap fun said => net said.bytes } :
      Connection).reads = Ftpd.Said.bytes (.reply ⟨code, text⟩) :: more.map Ftpd.Said.bytes := by
    dsimp only
    rw [hreads, hreplies, hsaid]
    rfl
  obtain ⟨hgot, hrest, hbuf⟩ := ftpcmd_of_reply hcode hrange (some cmd) hconn
  rw [exchange, if_pos halive]
  dsimp only
  rw [hgot]
  exact ⟨rfl, hrest, rfl, rfl, hbuf⟩

/-- A reply that has come. -/
theorem awaitReply_of_reply {code : Nat} {text : List UInt8} (hcode : decimalText code = codeText code)
    (hrange : 100 ≤ code ∧ code < 1000) (hreads : w.conn.reads = [Ftpd.Said.bytes (.reply ⟨code, text⟩)]) :
    (awaitReply w).2 = code ∧ (awaitReply w).1.conn.reads = [] ∧ (awaitReply w).1.server = w.server ∧
      (awaitReply w).1.alive = w.alive := by
  obtain ⟨hgot, hrest, -⟩ := ftpcmd_of_reply hcode hrange none hreads
  rw [awaitReply]
  dsimp only
  rw [hgot]
  exact ⟨rfl, hrest, rfl, rfl⟩

end Exchange

/-! ## The commands of the client -/

section Commands

variable {tunables : SessionTunables} {net : Net} {w : Wire} {env : CommandEnv} {files : Ftpd.Files}

/-- A session between the commands of a client, with the files of its directory. -/
structure Idle (files : Ftpd.Files) (w : Wire) : Prop where
  alive : w.alive = true
  transfer : w.server.transfer = Ftpd.sessionStart
  portAddr : w.server.channel.portAddr = none
  pasvListenFd : w.server.channel.pasvListenFd = none
  files : w.server.files = files

/-- The call returns what is expected. -/
def Call.Fine (call : Call) : Prop := call.got ∈ call.expected

instance (call : Call) : Decidable call.Fine := inferInstanceAs (Decidable (_ ∈ _))

/-- A command of the table. -/
theorem lookup_of_find {cmd : List UInt8} {func : Ftpd.CmdFunc} (arg : List UInt8)
    (h : Ftpd.ctrlCmdsMap.find? (fun entry => entry.1 = cmd) = some (cmd, some func)) :
    Ftpd.lookup cmd arg = .func func arg := by
  rw [Ftpd.lookup, h]

/-- What is called for a command with an argument. -/
theorem handleCommand_argument {word arg : List UInt8} (func : Ftpd.CmdFunc) (hblank : 0x20 ∉ word)
    (hword : IsArgument word) (hshort : word.length ≤ 8) (harg : IsArgument arg)
    (hfind : Ftpd.ctrlCmdsMap.find? (fun entry => entry.1 = word.map Ftpd.toupper) =
      some (word.map Ftpd.toupper, some func)) {s : Serving} {o : Ftpd.Outcome}
    (ho : Ftpd.cmdFunc tunables s func arg env = o) (hhold : Ftpd.arraysHold func arg env = true)
    (hfits : ∀ said ∈ o.said, said.fits = true) (halarm : env.alarm = none) :
    Ftpd.handleCommand tunables s (Command.text ⟨word, some arg⟩) env = o := by
  rw [Ftpd.handleCommand, halarm, handleLine_argument hblank hword hshort harg, lookup_of_find arg hfind, ← ho]
  exact Ftpd.inArrays_of_fits hhold (ho ▸ hfits)

/-- What is called for a line of the client. -/
theorem handleCommand_line {line : List UInt8} (func : Ftpd.CmdFunc) (arg : List UInt8)
    (h : Ftpd.commandOf (Command.text ⟨line, none⟩) = .func func arg) {s : Serving} {o : Ftpd.Outcome}
    (ho : Ftpd.cmdFunc tunables s func arg env = o) (hhold : Ftpd.arraysHold func arg env = true)
    (hfits : ∀ said ∈ o.said, said.fits = true) (halarm : env.alarm = none) :
    Ftpd.handleCommand tunables s (Command.text ⟨line, none⟩) env = o := by
  rw [Ftpd.handleCommand, halarm, Ftpd.handleLine_eq, h, ← ho]
  exact Ftpd.inArrays_of_fits hhold (ho ▸ hfits)

/-- A command after which the session waits for the next one. -/
theorem exchange_idle (hnet : net.InOneRead) {cmd : Command} {code : Nat} {text : List UInt8} {s : Serving}
    (h : Idle files w) (hreads : w.conn.reads = []) (hcode : decimalText code = codeText code)
    (hrange : 100 ≤ code ∧ code < 1000)
    (houtcome : Ftpd.handleCommand tunables w.server cmd.text env = Ftpd.ftpRelply s code text) :
    (exchange tunables net w cmd env).2 = code ∧ (exchange tunables net w cmd env).1.conn.reads = [] ∧
      (exchange tunables net w cmd env).1.server = s ∧ (exchange tunables net w cmd env).1.alive = true := by
  obtain ⟨hgot, hrest, hserver, halive, -⟩ := exchange_of_said hnet code h.alive hreads hcode hrange
    (by rw [houtcome]; rfl)
  rw [houtcome] at hserver halive
  exact ⟨hgot, hrest, hserver, halive⟩

theorem exchange_user (tunables : SessionTunables) (hnet : net.InOneRead) (h : Idle files w)
    (hreads : w.conn.reads = []) {user : List UInt8} (huser : IsArgument user) {uid : Nat}
    (hknown : env.getpwnam user = some uid) (halarm : env.alarm = none) :
    (exchange tunables net w ⟨textOf "USER", some user⟩ env).2 = 331 ∧
      Idle files (exchange tunables net w ⟨textOf "USER", some user⟩ env).1 ∧
      (exchange tunables net w ⟨textOf "USER", some user⟩ env).1.conn.reads = [] ∧
      (exchange tunables net w ⟨textOf "USER", some user⟩ env).1.server.uid = uid := by
  have hword : IsArgument (textOf "USER") := ⟨by decide, by decide, by decide, by decide⟩
  have houtcome : Ftpd.handleCommand tunables w.server (Command.text ⟨textOf "USER", some user⟩) env =
      Ftpd.ftpRelply { w.server with uid := uid } 331 (textOf "Please specify the password.") := by
    refine handleCommand_argument .doUser (by decide) hword (by decide) huser (by decide) ?_ rfl
      (List.forall_mem_singleton.mpr (by decide)) halarm
    rw [Ftpd.cmdFunc, Ftpd.doUser, hknown]
  obtain ⟨hgot, hrest, hserver, halive⟩ := exchange_idle hnet h hreads (by decide) (by decide) houtcome
  refine ⟨hgot, ⟨halive, ?_, ?_, ?_, ?_⟩, hrest, by rw [hserver]⟩
  all_goals rw [hserver]
  · exact h.transfer
  · exact h.portAddr
  · exact h.pasvListenFd
  · exact h.files

theorem exchange_pass (tunables : SessionTunables) (hnet : net.InOneRead) (h : Idle files w)
    (hreads : w.conn.reads = []) {login : Login} {uid : Nat} {home : Ftpd.Files}
    (hlogin : login.Succeeds uid home) (huid : w.server.uid = uid) :
    (exchange tunables net w ⟨textOf "PASS", some login.password⟩ login.passEnv).2 = 230 ∧
      Idle home (exchange tunables net w ⟨textOf "PASS", some login.password⟩ login.passEnv).1 ∧
      (exchange tunables net w ⟨textOf "PASS", some login.password⟩ login.passEnv).1.conn.reads = [] := by
  subst huid
  have hword : IsArgument (textOf "PASS") := ⟨by decide, by decide, by decide, by decide⟩
  have houtcome : Ftpd.handleCommand tunables w.server (Command.text ⟨textOf "PASS", some login.password⟩)
      login.passEnv = Ftpd.ftpRelply { w.server with files := home } 230 (textOf "Login successful.") := by
    refine handleCommand_argument .doPass (by decide) hword (by decide) hlogin.password (by decide) ?_ rfl
      (List.forall_mem_singleton.mpr (by decide)) hlogin.passInTime
    rw [Ftpd.cmdFunc, Ftpd.doPass, hlogin.entry, hlogin.shadow, hlogin.right, hlogin.ids, hlogin.home]
    rfl
  obtain ⟨hgot, hrest, hserver, halive⟩ := exchange_idle hnet h hreads (by decide) (by decide) houtcome
  refine ⟨hgot, ⟨halive, ?_, ?_, ?_, ?_⟩, hrest⟩
  all_goals rw [hserver]
  · exact h.transfer
  · exact h.portAddr
  · exact h.pasvListenFd

theorem exchange_type (tunables : SessionTunables) (hnet : net.InOneRead) (h : Idle files w)
    (hreads : w.conn.reads = []) (halarm : env.alarm = none) :
    (exchange tunables net w ⟨textOf "TYPE I", none⟩ env).2 = 200 ∧
      Idle files (exchange tunables net w ⟨textOf "TYPE I", none⟩ env).1 ∧
      (exchange tunables net w ⟨textOf "TYPE I", none⟩ env).1.conn.reads = [] := by
  have houtcome : Ftpd.handleCommand tunables w.server (Command.text ⟨textOf "TYPE I", none⟩) env =
      Ftpd.ftpRelply { w.server with transfer.isAscii := false } 200 (textOf "Switch to Binary mode") := by
    refine handleCommand_line .doType (textOf "I") (by decide) ?_ rfl (List.forall_mem_singleton.mpr (by decide)) halarm
    rw [Ftpd.cmdFunc, Ftpd.doType, if_neg (by decide), if_pos rfl]
  obtain ⟨hgot, hrest, hserver, halive⟩ := exchange_idle hnet h hreads (by decide) (by decide) houtcome
  refine ⟨hgot, ⟨halive, ?_, ?_, ?_, ?_⟩, hrest⟩
  all_goals rw [hserver]
  · dsimp only
    rw [h.transfer]
    rfl
  · exact h.portAddr
  · exact h.pasvListenFd
  · exact h.files

/-- The reply to `PASV` fits into its array. -/
theorem fits_pasvText (ip : Ftpd.LocalIp) (port : UInt16) :
    (Ftpd.Said.reply ⟨227, Ftpd.pasvText ip port⟩).fits = true := by
  have hcode : (decimalText 227).length = 3 := by decide
  have hreply : (pasvReply ip port).length = (Ftpd.pasvText ip port).length + 6 := by
    rw [pasvReply, Ftpd.Said.bytes]
    simp only [List.length_append, List.length_cons, List.length_nil, hcode]
    omega
  have hdigits : ∀ n < 2 ^ 32, (decimalText n).length ≤ 10 := fun n hn => by
    rw [decimalText, List.length_map]
    exact Nat.toDigits_length 10 n 10 (by decide) (by omega)
  have hfront : (textOf "Entering Passive Mode (").length = 23 := by decide
  have h0 := hdigits _ ip.v0.toNat_lt
  have h1 := hdigits _ ip.v1.toNat_lt
  have h2 := hdigits _ ip.v2.toNat_lt
  have h3 := hdigits _ ip.v3.toNat_lt
  have hport := port.toNat_lt
  have hhigh := hdigits (port.toNat / 256) (by omega)
  have hlow := hdigits (port.toNat % 256) (by omega)
  rw [pasvReply_eq, pasvFront] at hreply
  simp only [List.length_append, List.length_cons, List.length_nil, hfront] at hreply
  rw [Ftpd.Said.fits, Ftpd.Reply.fits, hcode, decide_eq_true_eq]
  dsimp only
  omega

/-- The session listens, and the client knows where. -/
theorem exchange_pasv (tunables : SessionTunables) (hnet : net.InOneRead) (h : Idle files w)
    (hreads : w.conn.reads = []) (halarm : env.alarm = none) (hnobody : env.nobody = true) :
    (exchange tunables net w ⟨textOf "PASV", none⟩ env).2 = 227 ∧
      parsePasvEpsv (exchange tunables net w ⟨textOf "PASV", none⟩ env).1.conn.buf = env.priv.port.toNat ∧
      (exchange tunables net w ⟨textOf "PASV", none⟩ env).1.server =
        { w.server with channel.pasvListenFd := some env.priv.listenFd } ∧
      (exchange tunables net w ⟨textOf "PASV", none⟩ env).1.alive = true ∧
      (exchange tunables net w ⟨textOf "PASV", none⟩ env).1.conn.reads = [] := by
  have houtcome : Ftpd.handleCommand tunables w.server (Command.text ⟨textOf "PASV", none⟩) env =
      Ftpd.ftpRelply { w.server with channel.pasvListenFd := some env.priv.listenFd } 227
        (Ftpd.pasvText env.localIp env.priv.port) := by
    refine handleCommand_line .doPasv [] (by decide) ?_ rfl
      (List.forall_mem_singleton.mpr (fits_pasvText env.localIp env.priv.port)) halarm
    rw [Ftpd.cmdFunc, Ftpd.doPasv, hnobody]
    rfl
  obtain ⟨hgot, hrest, hserver, halive, rest, hbuf⟩ := exchange_of_said hnet 227 h.alive hreads (by decide)
    (by decide) (by rw [houtcome]; rfl)
  rw [houtcome] at hserver halive
  refine ⟨hgot, ?_, hserver, halive, hrest⟩
  rw [hbuf]
  exact parsePasvEpsv_pasvReply env.localIp env.priv.port rest

/-- A log that arrives is on the server. -/
theorem uploadCommon_log {log : Log} (hlog : log.Succeeds) (files : Ftpd.Files) :
    Ftpd.uploadCommon false Ftpd.sessionStart files log.name
        { (storEnv log true).upload with transferFd := .connected } =
      ⟨Ftpd.sessionStart, files.set log.name log.data,
        [⟨150, Ftpd.openingText false log.name 0⟩, ⟨226, textOf "Transfer complete."⟩], false⟩ := by
  have hloop := Ftpd.uploadLoop_of_arrives log.arrivals [] log.data hlog.arrives
  rw [List.nil_append, List.length_nil] at hloop
  rw [Ftpd.uploadCommon]
  simp [Ftpd.uploadFile, storEnv, Ftpd.sessionStart, hlog.inTime, hlog.opened, hlog.locked, hlog.truncated, hlog.seeked,
    hloop, Ftpd.uploadReplies]

/-- The log is sent. -/
theorem exchange_stor (tunables : SessionTunables) (hnet : net.InOneRead) {s : Serving} (hserver : w.server = s)
    (halive : w.alive = true) (hreads : w.conn.reads = []) {log : Log} (hlog : log.Succeeds)
    (htransfer : s.transfer = Ftpd.sessionStart) (hport : s.channel.portAddr = none)
    (hlisten : s.channel.pasvListenFd = some log.pasv.priv.listenFd) :
    (exchange tunables net w ⟨textOf "STOR", some log.name⟩ (storEnv log true)).2 = 150 ∧
      (exchange tunables net w ⟨textOf "STOR", some log.name⟩ (storEnv log true)).1.conn.reads =
        [Ftpd.Said.bytes (.reply ⟨226, textOf "Transfer complete."⟩)] ∧
      Idle (s.files.set log.name log.data)
        (exchange tunables net w ⟨textOf "STOR", some log.name⟩ (storEnv log true)).1 := by
  have hword : IsArgument (textOf "STOR") := ⟨by decide, by decide, by decide, by decide⟩
  obtain ⟨channel, hget, hport', hlisten'⟩ :=
    Ftpd.getTransferFd_of_pasv (storEnv log true).priv 0 hport hlisten
  have haccept : ((storEnv log true).priv.accept log.pasv.priv.listenFd).isSome = true := hlog.accepted
  have hnobody : (storEnv log true).nobody = true := hlog.storNobody
  rw [if_pos haccept] at hget
  have houtcome : Ftpd.handleCommand tunables w.server (Command.text ⟨textOf "STOR", some log.name⟩)
      (storEnv log true) = ⟨{ s with
        channel := channel
        transfer := Ftpd.sessionStart
        files := s.files.set log.name log.data },
      [.reply ⟨150, Ftpd.openingText false log.name 0⟩, .reply ⟨226, textOf "Transfer complete."⟩], .returned⟩ := by
    refine handleCommand_argument .doStor (by decide) hword (by decide) hlog.name (by decide) ?_ rfl
      (List.forall_mem_cons.mpr ⟨Ftpd.fits_openingText false hlog.entry (by decide),
        List.forall_mem_singleton.mpr (by decide)⟩) hlog.storInTime
    rw [Ftpd.cmdFunc, Ftpd.doStor, Ftpd.withTransferFd, hserver, hnobody, hget]
    dsimp only
    rw [htransfer, uploadCommon_log hlog]
    rfl
  obtain ⟨hgot, hrest, hserver', halive', -⟩ := exchange_of_said hnet 150 halive hreads (by decide) (by decide)
    (by rw [houtcome])
  rw [houtcome] at hserver' halive'
  refine ⟨hgot, hrest, halive', ?_, ?_, ?_, ?_⟩
  all_goals rw [hserver']
  · exact hport'
  · exact hlisten'

/-- A reply is read, and the session still waits. -/
theorem awaitReply_idle (h : Idle files w) {code : Nat} {text : List UInt8} (hcode : decimalText code = codeText code)
    (hrange : 100 ≤ code ∧ code < 1000) (hreads : w.conn.reads = [Ftpd.Said.bytes (.reply ⟨code, text⟩)]) :
    (awaitReply w).2 = code ∧ (awaitReply w).1.conn.reads = [] ∧ Idle files (awaitReply w).1 := by
  obtain ⟨hgot, hrest, hserver, halive⟩ := awaitReply_of_reply hcode hrange hreads
  refine ⟨hgot, hrest, halive.trans h.alive, ?_, ?_, ?_, ?_⟩
  all_goals rw [hserver]
  · exact h.transfer
  · exact h.portAddr
  · exact h.pasvListenFd
  · exact h.files

/-- The client logs in. -/
theorem ftpLogin_fine (tunables : SessionTunables) (hnet : net.InOneRead) (h : Idle files w)
    (hreads : w.conn.reads = [Ftpd.Said.bytes (.reply ⟨220, textOf "(miniftpd 0.1)"⟩)]) {login : Login} {uid : Nat}
    {home : Ftpd.Files} (hlogin : login.Succeeds uid home) :
    (∀ call ∈ (ftpLogin tunables net w login).2, call.Fine) ∧ Idle home (ftpLogin tunables net w login).1 ∧
      (ftpLogin tunables net w login).1.conn.reads = [] := by
  obtain ⟨hgreet, hread, hidle⟩ := awaitReply_idle h (by decide) (by decide) hreads
  obtain ⟨huser, hidle, hread, huid⟩ := exchange_user tunables hnet hidle hread hlogin.user hlogin.known
    hlogin.userInTime
  obtain ⟨hpass, hidle, hread⟩ := exchange_pass tunables hnet hidle hread hlogin huid
  obtain ⟨htype, hidle, hread⟩ := exchange_type tunables hnet hidle hread hlogin.typeInTime
  rw [ftpLogin]
  dsimp only
  rw [if_pos huser]
  dsimp only
  refine ⟨?_, hidle, hread⟩
  rw [hgreet, huser, hpass, htype]
  decide

/-- A log is sent, and the reply to its end is on the way. -/
theorem ftpSend_fine (tunables : SessionTunables) (hnet : net.InOneRead) (h : Idle files w) (hreads : w.conn.reads = [])
    {log : Log} (hlog : log.Succeeds) :
    (∀ call ∈ (ftpSend tunables net w log).2, call.Fine) ∧
      Idle (files.set log.name log.data) (ftpSend tunables net w log).1 ∧
      (ftpSend tunables net w log).1.conn.reads = [Ftpd.Said.bytes (.reply ⟨226, textOf "Transfer complete."⟩)] := by
  obtain ⟨hpasv, hport, hserver, halive, hread⟩ := exchange_pasv tunables hnet h hreads hlog.pasvInTime hlog.pasvNobody
  -- the client connects to the port where the session listens
  have hconnected : decide (UInt16.ofInt (log.pasv.priv.port.toNat : Int) = log.pasv.priv.port) = true := by
    have hmod : ((log.pasv.priv.port.toNat : Int) % 2 ^ 16).toNat = log.pasv.priv.port.toNat := by
      have hlt := log.pasv.priv.port.toNat_lt
      omega
    rw [decide_eq_true_eq, UInt16.ofInt, hmod, UInt16.ofNat_toNat]
  obtain ⟨hstor, hread, hidle⟩ := exchange_stor tunables hnet hserver halive hread hlog h.transfer
    h.portAddr rfl
  rw [ftpSend]
  dsimp only
  rw [hport, hconnected, hpasv, hstor]
  refine ⟨by decide, ?_, hread⟩
  rwa [← h.files]

/-- One log, whether the client has logged in or not. -/
theorem ftpWriteRequest_fine (tunables : SessionTunables) (hnet : net.InOneRead) (on : Bool) {home : Ftpd.Files}
    (h : Idle files w) {login : Login} {uid : Nat} (hlogin : login.Succeeds uid home) {log : Log} (hlog : log.Succeeds)
    (hreads : if on then w.conn.reads = [Ftpd.Said.bytes (.reply ⟨226, textOf "Transfer complete."⟩)]
      else w.conn.reads = [Ftpd.Said.bytes (.reply ⟨220, textOf "(miniftpd 0.1)"⟩)]) :
    (∀ call ∈ (ftpWriteRequest tunables net login on w log).2, call.Fine) ∧
      Idle ((if on then files else home).set log.name log.data) (ftpWriteRequest tunables net login on w log).1 ∧
      (ftpWriteRequest tunables net login on w log).1.conn.reads =
        [Ftpd.Said.bytes (.reply ⟨226, textOf "Transfer complete."⟩)] := by
  have hbuf : Idle files { w with conn.buf := log.buf } := ⟨h.alive, h.transfer, h.portAddr, h.pasvListenFd, h.files⟩
  rw [ftpWriteRequest]
  cases on with
  | false =>
      obtain ⟨hcalls, hidle, hread⟩ := ftpLogin_fine tunables hnet hbuf hreads hlogin
      obtain ⟨hcalls', hsent⟩ := ftpSend_fine tunables hnet hidle hread hlog
      exact ⟨List.forall_mem_append.mpr ⟨hcalls, hcalls'⟩, hsent⟩
  | true =>
      obtain ⟨hgot, hread, hidle⟩ := awaitReply_idle hbuf (by decide) (by decide) hreads
      obtain ⟨hcalls', hsent⟩ := ftpSend_fine tunables hnet hidle hread hlog
      refine ⟨List.forall_mem_append.mpr ⟨?_, hcalls'⟩, hsent⟩
      intro call hcall
      rw [List.mem_singleton.mp hcall, Call.Fine]
      exact List.mem_singleton.mpr hgot

/-- The logs after the first one. -/
theorem ftpWriteRequests_fine (tunables : SessionTunables) (hnet : net.InOneRead) {home : Ftpd.Files} (h : Idle files w)
    {login : Login} {uid : Nat} (hlogin : login.Succeeds uid home) {logs : List Log}
    (hlogs : ∀ log ∈ logs, log.Succeeds)
    (hreads : w.conn.reads = [Ftpd.Said.bytes (.reply ⟨226, textOf "Transfer complete."⟩)]) :
    (∀ call ∈ (ftpWriteRequests tunables net login true w logs).2, call.Fine) ∧
      Idle (logs.foldl (fun files log => files.set log.name log.data) files)
        (ftpWriteRequests tunables net login true w logs).1 ∧
      (ftpWriteRequests tunables net login true w logs).1.conn.reads =
        [Ftpd.Said.bytes (.reply ⟨226, textOf "Transfer complete."⟩)] := by
  induction logs generalizing w files with
  | nil => exact ⟨fun call hcall => absurd hcall List.not_mem_nil, h, hreads⟩
  | cons log logs ih =>
      obtain ⟨hlog, hrest⟩ := List.forall_mem_cons.mp hlogs
      obtain ⟨hcalls, hidle, hread⟩ := ftpWriteRequest_fine tunables hnet true h hlogin hlog hreads
      obtain ⟨hcalls', hsent⟩ := ih hidle hrest hread
      exact ⟨List.forall_mem_append.mpr ⟨hcalls, hcalls'⟩, hsent⟩

/-- The last reply is read, and the session ends. -/
theorem ftpQuit_fine (tunables : SessionTunables) (hnet : net.InOneRead) (h : Idle files w)
    (hreads : w.conn.reads = [Ftpd.Said.bytes (.reply ⟨226, textOf "Transfer complete."⟩)]) {quitEnv : CommandEnv}
    (halarm : quitEnv.alarm = none) :
    (∀ call ∈ (ftpQuit tunables net true w quitEnv).2, call.Fine) ∧
      (ftpQuit tunables net true w quitEnv).1.server.files = files ∧
      (ftpQuit tunables net true w quitEnv).1.alive = false := by
  obtain ⟨hgot, hread, hidle⟩ := awaitReply_idle h (by decide) (by decide) hreads
  have houtcome : Ftpd.handleCommand tunables (awaitReply w).1.server (Command.text ⟨textOf "QUIT", none⟩) quitEnv =
      Ftpd.doQuit (awaitReply w).1.server := by
    exact handleCommand_line .doQuit [] (by decide) rfl rfl (List.forall_mem_singleton.mpr (by decide)) halarm
  obtain ⟨hquit, -, hserver, halive, -⟩ := exchange_of_said hnet 221 hidle.alive hread (by decide) (by decide)
    (by rw [houtcome]; rfl)
  rw [houtcome] at hserver halive
  rw [ftpQuit, if_pos rfl]
  dsimp only
  refine ⟨?_, ?_, halive⟩
  · rw [hgot, hquit]
    decide
  · rw [hserver]
    exact hidle.files

end Commands

/-- **Logs are collected over FTP.** Whatever the logs are, if every reply is read at once and no alarm ends the
session, every reply is one that the client expects, and in the end the session is over and its directory has the logs,
of each name the last one, and what it had before. -/
theorem logs_collected (tunables : SessionTunables) (net : Net) (hnet : net.InOneRead) (login : Login) (uid : Nat)
    (files home : Ftpd.Files) (hlogin : login.Succeeds uid home) (logs : List Log) (hlogs : ∀ log ∈ logs, log.Succeeds)
    (hne : logs ≠ []) (quitEnv : CommandEnv) (hquit : quitEnv.alarm = none) :
    let r := collect tunables net login (wireStart net files) logs quitEnv
    (∀ call ∈ r.2, call.got ∈ call.expected) ∧
      (∀ name, Ftpd.IsEntry name →
        r.1.server.files name = logs.foldl (fun files log => files.set log.name log.data) home name) ∧
      r.1.alive = false := by
  intro r
  obtain ⟨log, logs, rfl⟩ := List.exists_cons_of_ne_nil hne
  obtain ⟨hlog, hrest⟩ := List.forall_mem_cons.mp hlogs
  have hstart : Idle files (wireStart net files) := ⟨rfl, rfl, rfl, rfl, rfl⟩
  obtain ⟨hcalls, hidle, hread⟩ := ftpWriteRequest_fine tunables hnet false hstart hlogin hlog
    (hnet (.reply ⟨220, textOf "(miniftpd 0.1)"⟩))
  obtain ⟨hcalls', hidle, hread⟩ := ftpWriteRequests_fine tunables hnet hidle hlogin hrest hread
  obtain ⟨hcalls'', hfiles, halive⟩ := ftpQuit_fine tunables hnet hidle hread hquit
  have hr : r = collect tunables net login (wireStart net files) (log :: logs) quitEnv := rfl
  rw [hr, collect, ftpWriteRequests, decide_eq_true hne]
  exact ⟨List.forall_mem_append.mpr ⟨List.forall_mem_append.mpr ⟨hcalls, hcalls'⟩, hcalls''⟩,
    fun name _ => congrFun hfiles name, halive⟩

/-- `a` with the password `b`. -/
def someLogin : Login := ⟨textOf "a", textOf "b", Ftpd.goodEnv, Ftpd.goodEnv, Ftpd.goodEnv⟩

/-- A directory without files. -/
def noFiles : Ftpd.Files := fun _ => none

/-- Three bytes in two reads. -/
def firstLog : Log := ⟨textOf "x.log", [1, 2, 3], [.bytes 1 2, .bytes 7 1], Ftpd.goodEnv, Ftpd.goodEnv, []⟩

/-- A log with the name of the first one. -/
def secondLog : Log := ⟨textOf "x.log", [4], [.interrupted, .bytes 0 1], Ftpd.goodEnv, Ftpd.goodEnv, [7, 7]⟩

theorem logs_collected_twice :
    let r := collect ⟨63, 0, 0, 1⟩ (fun bytes => [bytes]) someLogin (wireStart (fun bytes => [bytes]) noFiles)
      [firstLog, secondLog] Ftpd.goodEnv
    (∀ call ∈ r.2, call.got ∈ call.expected) ∧ r.1.server.files (textOf "x.log") = some [4] ∧ r.1.alive = false := by
  intro r
  have hname : IsArgument (textOf "x.log") := ⟨by decide, by decide, by decide, by decide⟩
  have hentry : Ftpd.IsEntry (textOf "x.log") := ⟨by decide, by decide, by decide, by decide, by decide, by decide⟩
  have hfirst : firstLog.Succeeds := ⟨hname, hentry, rfl, rfl, rfl, rfl, rfl, rfl, rfl, rfl, rfl, rfl,
    Or.inr ⟨by decide, Or.inr ⟨by decide, rfl⟩⟩⟩
  have hsecond : secondLog.Succeeds := ⟨hname, hentry, rfl, rfl, rfl, rfl, rfl, rfl, rfl, rfl, rfl, rfl,
    Or.inr ⟨by decide, rfl⟩⟩
  obtain ⟨hcalls, hfiles, halive⟩ := logs_collected ⟨63, 0, 0, 1⟩ (fun bytes => [bytes]) (fun _ => rfl) someLogin 7
    noFiles noFiles
    ⟨rfl, rfl, rfl, ⟨by decide, by decide, by decide, by decide⟩, ⟨by decide, by decide, by decide, by decide⟩, rfl,
      rfl, rfl, rfl, rfl, rfl⟩
    [firstLog, secondLog] (List.forall_mem_cons.mpr ⟨hfirst, List.forall_mem_singleton.mpr hsecond⟩)
    (List.cons_ne_nil _ _) Ftpd.goodEnv rfl
  refine ⟨hcalls, (hfiles _ hentry).trans ?_, halive⟩
  exact Ftpd.Files.set_self (noFiles.set (textOf "x.log") [1, 2, 3]) (textOf "x.log") [4]

end QLog.Ftp
