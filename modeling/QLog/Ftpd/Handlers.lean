import QLog.Ftpd.DataChannel
import QLog.Ftpd.Download

/-! # The commands of an FTP session

Every line comes to a function of the table, and that to replies. A function may also end the process, or never return,
or go wrong: a download divides by a limit of zero, and texts that are too long are written over the arrays that they
are put together in. At any time the alarm that is set may end the process, which says so in a reply of its own. -/

namespace QLog.Ftpd

open Library

/-! ## Texts and numbers -/

/-- `%u` of `sscanf`: the number, and what stands behind it. -/
def scanU (str : List UInt8) : Option (Nat × List UInt8) :=
  let text := str.dropWhile isSpace
  let signed := text.headD 0 = 0x2b ∨ text.headD 0 = 0x2d
  let rest := if signed then text.tail else text
  let digits := rest.takeWhile isDigit
  if digits = [] then none
  else
    -- the value is that of `strtoul`, cut to an `unsigned int`
    let value := if 2 ^ 64 ≤ decimalValue digits then 2 ^ 64 - 1
      else if text.headD 0 = 0x2d then 2 ^ 64 - decimalValue digits
      else decimalValue digits
    some (value % 2 ^ 32, rest.dropWhile isDigit)

/-- `sscanf` with `%u`, and then a comma and another `%u` as often as `more` says: the numbers it stores. -/
def scanList : Nat → List UInt8 → List Nat
  | more, str =>
      match scanU str, more with
      | none, _ => []
      | some (n, 0x2c :: rest), more + 1 => n :: scanList more rest
      | some (n, _), _ => [n]

/-- `%o` of `printf` -/
def octalText (n : Nat) : List UInt8 := (Nat.toDigits 8 n).map fun c => UInt8.ofNat c.toNat

/-- `str_octal_to_uint` -/
def strOctalToUint (str : List UInt8) : Nat :=
  if str.all fun c => 0x30 ≤ c ∧ c ≤ 0x37 then
    str.foldl (fun result c => (result * 8 + (c.toNat - 0x30)) % 2 ^ 32) 0
  else 0

/-! ## A session -/

/-- What a handler sends on the control connection: `ftp_relply`, `ftp_lrelply`, or lines as they stand. -/
inductive Said where
  | reply (reply : Reply)
  | lreply (reply : Reply)
  | lines (bytes : List UInt8)
  deriving DecidableEq

/-- A handler returns, ends the process, never returns, or goes wrong. -/
inductive Ending where
  | returned
  | exited
  | stuck
  | died
  deriving DecidableEq

/-- The tunables that the handlers use. -/
structure SessionTunables where
  localUmask : Nat
  uploadMaxRate : Nat
  downloadMaxRate : Nat
  numClients : Nat

/-- A session: its user, what the transfers use of it, its data connection, the name of `RNFR`, and the regular files of
its directory. What a command does to a file by a path that is not the name of its entry is not followed. -/
structure Serving where
  uid : Nat
  transfer : Session
  channel : Channel
  rnfrName : Option (List UInt8)
  files : Files

/-- A session as `main` makes it. -/
def servingStart (files : Files) : Serving where
  uid := 0
  transfer := sessionStart
  channel := channelStart
  rnfrName := none
  files := files

/-- The array `v` of `do_pasv`: the numbers of `getlocalip`, or where it fails what the array has before. -/
structure LocalIp where
  v0 : UInt32
  v1 : UInt32
  v2 : UInt32
  v3 : UInt32

/-- What the calls of a handler come to. -/
structure CommandEnv where
  getpwnam : List UInt8 → Option Nat
  getpwuid : Nat → Bool
  getspnam : Bool
  /-- whether the encrypted password is that of the user, unless `crypt` fails -/
  crypt : List UInt8 → Option Bool
  /-- `setegid`, `seteuid` and `activate_sigurg` -/
  setIds : Bool
  /-- the files of the directory it leads to -/
  chdir : Option Files
  /-- the process of nobody does not end -/
  nobody : Bool
  priv : PrivEnv
  localIp : LocalIp
  /-- what the array of `do_port` has before -/
  unset : List Nat
  upload : UploadEnv
  retr : RetrEnv
  /-- the rounds of a download -/
  rounds : List SendCall
  /-- the lines of `list_common` fit into their arrays, and no write of them ends the process -/
  listed : Bool
  /-- the string that `readlink` of `/proc/self/exe` leaves in the array; `do_retr` does not end it, so what the array
  had before may stand behind -/
  path : List UInt8
  getcwd : Option (List UInt8)
  /-- `mkdir`, `rmdir`, `unlink`, `rename`, `chmod` or `stat` succeeds. -/
  succeeds : Bool
  /-- the alarm that ends the process, if one does, and how much has been said by then; those that come in the loop of a
  transfer belong to its calls -/
  alarm : Option (Alarm × Nat)

/-- All calls succeed. -/
def goodEnv : CommandEnv where
  getpwnam _ := some 7
  getpwuid _ := true
  getspnam := true
  crypt _ := some true
  setIds := true
  chdir := some fun _ => none
  nobody := true
  priv := { connect := fun _ _ => none, listenFd := 4, port := 2000, accept := fun _ => some 5 }
  localIp := ⟨10, 0, 0, 1⟩
  unset := []
  upload := ⟨.connected, true, true, true, true, none, []⟩
  retr := ⟨.connected, none, true, true, true, false⟩
  rounds := []
  listed := true
  path := textOf "/qftp_server"
  getcwd := none
  succeeds := true
  alarm := none

/-- What comes of a handler. -/
structure Outcome where
  server : Serving
  said : List Said
  ending : Ending

/-- One reply. -/
def ftpRelply (s : Serving) (code : Nat) (text : List UInt8) : Outcome := ⟨s, [.reply ⟨code, text⟩], .returned⟩

/-- `get_transfer_fd` in front of a transfer; it asks the process of nobody first. -/
def withTransferFd (s : Serving) (env : CommandEnv) (next : Serving → TransferFd → Outcome) : Outcome :=
  if !env.nobody then ⟨s, [], .exited⟩
  else
    match getTransferFd s.channel env.priv 2 with
    | none => ⟨s, [], .stuck⟩
    | some (channel, .exits) => ⟨{ s with channel := channel }, [], .exited⟩
    | some (channel, .goesOn fd) => next { s with channel := channel } fd

def doUser (s : Serving) (arg : List UInt8) (env : CommandEnv) : Outcome :=
  match env.getpwnam arg with
  | none => ftpRelply s 530 (textOf "Login incorrect.")
  | some uid => ftpRelply { s with uid := uid } 331 (textOf "Please specify the password.")

def doPass (s : Serving) (arg : List UInt8) (env : CommandEnv) : Outcome :=
  if !env.getpwuid s.uid then ftpRelply s 530 (textOf "Login incorrect.")
  else if !env.getspnam then ftpRelply s 530 (textOf "Login incorrect.")
  else
    match env.crypt arg with
    -- `strcmp` of a null pointer
    | none => ⟨s, [], .died⟩
    | some false => ftpRelply s 530 (textOf "Password incorrect.")
    | some true =>
        if !env.setIds then ⟨s, [], .exited⟩
        else
          match env.chdir with
          | none => ⟨s, [], .returned⟩
          | some files => ftpRelply { s with files := files } 230 (textOf "Login successful.")

/-- `do_cwd` and `do_cdup` -/
def doCwd (s : Serving) (env : CommandEnv) : Outcome :=
  match env.chdir with
  | none => ftpRelply s 550 (textOf "Directory changed fail.")
  | some files => ftpRelply { s with files := files } 250 (textOf "Directory successfully changed.")

def doQuit (s : Serving) : Outcome := ⟨s, [.reply ⟨221, textOf "Goodbye."⟩], .exited⟩

/-- The address of `PORT`; a number that is not there is what the array has before. -/
def portAddrOf (arg : List UInt8) (unset : List Nat) : UInt16 × InAddr :=
  let v (k : Nat) : UInt8 := UInt8.ofNat ((scanList 5 arg).getD k (unset.getD k 0))
  (UInt16.ofNat ((v 4).toNat * 256 + (v 5).toNat), ⟨v 0, v 1, v 2, v 3⟩)

def doPort (s : Serving) (arg : List UInt8) (env : CommandEnv) : Outcome :=
  ftpRelply { s with channel.portAddr := some (portAddrOf arg env.unset) } 200
    (textOf "PORT command successful. Consider using PASV.")

/-- `"Entering Passive Mode (%u,%u,%u,%u,%u,%u)."` -/
def pasvText (ip : LocalIp) (port : UInt16) : List UInt8 :=
  textOf "Entering Passive Mode (" ++ [0x2c].intercalate
    ([ip.v0.toNat, ip.v1.toNat, ip.v2.toNat, ip.v3.toNat, port.toNat / 256, port.toNat % 256].map decimalText) ++
    textOf ")."

/-- `do_pasv`; where the process of nobody cannot listen, both processes end. -/
def doPasv (s : Serving) (env : CommandEnv) : Outcome :=
  if !env.nobody then ⟨s, [], .exited⟩
  else
    match privResult s.channel.pasvListenFd env.priv .pasvListen with
    | .port port =>
        ftpRelply { s with channel.pasvListenFd := listenFdAfter s.channel.pasvListenFd env.priv .pasvListen } 227
          (pasvText env.localIp port)
    | _ => ⟨s, [], .exited⟩

def doType (s : Serving) (arg : List UInt8) : Outcome :=
  if arg = textOf "A" then ftpRelply { s with transfer.isAscii := true } 200 (textOf "Switch to ASCII mode")
  else if arg = textOf "I" then ftpRelply { s with transfer.isAscii := false } 200 (textOf "Switch to Binary mode")
  else ftpRelply s 500 (textOf "Unrecognised command.")

/-- The path that `do_retr` puts together: that of the program up to its last slash, and the argument. -/
def retrPath (path arg : List UInt8) : List UInt8 :=
  (path.reverse.dropWhile (· ≠ 0x2f)).tail.reverse ++ (if arg.head? = some 0x2f then [] else [0x2f]) ++ arg

/-- `do_retr` with its loop. -/
def doRetrAll (tunables : SessionTunables) (s : Serving) (arg : List UInt8) (env : CommandEnv) : Outcome :=
  withTransferFd s env fun s fd =>
    -- `strrchr` finds no slash, or the path is too long for its array
    if fd = .connected ∧ (0x2f ∉ env.path ∨ 1024 ≤ (retrPath env.path arg).length) then ⟨s, [], .died⟩
    else
      let r := doRetr s.transfer arg { env.retr with transferFd := fd }
      match r.2.2 with
      | none => ⟨{ s with transfer := r.1 }, r.2.1.map .reply, .returned⟩
      | some (file, offset) =>
          let sending := env.rounds.foldl (sendRound file tunables.downloadMaxRate)
            (sendStart file offset r.1.aborReceived env.retr.dataProcess)
          match sending.progress with
          | .sending => ⟨{ s with transfer := r.1 }, r.2.1.map .reply, .stuck⟩
          | .died => ⟨{ s with transfer := r.1 }, r.2.1.map .reply, .died⟩
          | .timedOut => ⟨{ s with transfer := r.1 }, (r.2.1 ++ [Alarm.data.reply]).map .reply, .exited⟩
          | .ended =>
              ⟨{ s with transfer := { r.1 with dataFd := false, aborReceived := false } },
                (r.2.1 ++ sendReplies sending).map .reply, .returned⟩

/-- `do_stor` and `do_appe` -/
def doStor (isAppend : Bool) (s : Serving) (arg : List UInt8) (env : CommandEnv) : Outcome :=
  withTransferFd s env fun s fd =>
    let r := uploadCommon isAppend s.transfer s.files arg { env.upload with transferFd := fd }
    ⟨{ s with transfer := r.session, files := r.files }, r.replies.map .reply, if r.ended then .exited else .returned⟩

/-- `do_list` and `do_nlst`: the connection is closed, but `data_fd` is left as it is. -/
def doList (s : Serving) (env : CommandEnv) : Outcome :=
  withTransferFd s env fun s fd =>
    let s' : Serving := { s with transfer.dataFd := true }
    let opening : Said := .reply ⟨150, textOf "Here comes the directory list."⟩
    match fd with
    | .notChosen => ftpRelply s 425 (textOf "Use PORT or PASV first.")
    | .failed => ⟨s, [], .returned⟩
    | .connected =>
        if env.listed then ⟨s', [opening, .reply ⟨226, textOf "Directory send OK."⟩], .returned⟩
        else ⟨s', [opening], .died⟩

def doRestAll (s : Serving) (arg : List UInt8) : Outcome :=
  let r := doRest s.transfer arg
  ⟨{ s with transfer := r.1 }, [.reply r.2], .returned⟩

def doAbor (s : Serving) : Outcome := ftpRelply s 225 (textOf "No transfer to ABOR.")

def doPwd (s : Serving) (env : CommandEnv) : Outcome :=
  match env.getcwd with
  | none => ⟨s, [], .returned⟩
  | some dir => ftpRelply s 257 dir

def doMkd (s : Serving) (arg : List UInt8) (env : CommandEnv) : Outcome :=
  let path := env.path ++ arg
  if !env.succeeds then ftpRelply s 550 (textOf "Create directory operation failed.")
  else if path.head? = some 0x2f then ftpRelply s 257 (path ++ textOf " created")
  else
    match env.getcwd with
    | none => ⟨s, [], .returned⟩
    | some dir =>
        if dir.getLast? = some 0x2f then ftpRelply s 257 (dir ++ path ++ textOf " created")
        else ftpRelply s 257 (dir ++ 0x2f :: path ++ textOf " created")

/-- After the reply to a failure there is no return. -/
def doRmd (s : Serving) (env : CommandEnv) : Outcome :=
  let failed := if env.succeeds then [] else [Said.reply ⟨550, textOf "Rmove directory operation failed."⟩]
  ⟨s, failed ++ [.reply ⟨250, textOf "Remove directory operation successful."⟩], .returned⟩

def doDele (s : Serving) (arg : List UInt8) (env : CommandEnv) : Outcome :=
  if !env.succeeds then ftpRelply s 550 (textOf "Delete file operation failed.")
  else ftpRelply { s with files := Function.update s.files arg none } 250 (textOf "Delete file operation successful.")

def doRnfr (s : Serving) (arg : List UInt8) : Outcome :=
  ftpRelply { s with rnfrName := some arg } 350 (textOf "Ready for RNTO.")

def doRnto (s : Serving) (arg : List UInt8) (env : CommandEnv) : Outcome :=
  match s.rnfrName with
  | none => ftpRelply s 503 (textOf "RNFR required first.")
  | some name =>
      if !env.succeeds then ftpRelply { s with rnfrName := none } 550 (textOf "Rename operation failed.")
      else
        ftpRelply { s with
            rnfrName := none
            files := Function.update (Function.update s.files name none) arg (s.files name) }
          250 (textOf "Rename successful.")

/-- The two parts of an argument at its first blank. -/
def splitBlank (arg : List UInt8) : List UInt8 × List UInt8 :=
  (arg.takeWhile (· ≠ 0x20), arg.drop ((arg.takeWhile (· ≠ 0x20)).length + 1))

def doSiteChmod (s : Serving) (arg : List UInt8) (env : CommandEnv) : Outcome :=
  if (splitBlank arg).2 = [] then ftpRelply s 500 (textOf "SITE CHMOD needs 2 arguments.")
  else if !env.succeeds then ftpRelply s 504 (textOf "SITE CHMOD failed.")
  else ftpRelply s 200 (textOf "SITE CHMOD ok.")

def doSiteUmask (tunables : SessionTunables) (s : Serving) (arg : List UInt8) : Outcome :=
  if arg = [] then ftpRelply s 200 (textOf "Your current UMASK is 0" ++ octalText tunables.localUmask)
  else ftpRelply s 200 (textOf "UMASK set to 0" ++ octalText (strOctalToUint arg))

def doSite (tunables : SessionTunables) (s : Serving) (arg : List UInt8) (env : CommandEnv) : Outcome :=
  let split := splitBlank arg
  if split.1 = textOf "CHMOD" then doSiteChmod s split.2 env
  else if split.1 = textOf "UMASK" then doSiteUmask tunables s split.2
  else if split.1 = textOf "HELP" then ftpRelply s 214 (textOf "CHMOD UMASK HELP")
  else ftpRelply s 500 (textOf "Unknown SITE command")

def doFeat (s : Serving) : Outcome :=
  ⟨s, [.lreply ⟨211, textOf "Features:"⟩,
    .lines (textOf "EPRT\r\nEPSV\r\nMDTM\r\nPASV\r\nREST STREAM\r\nSIZE\r\nTVFS\r\nUTF8\r\n"),
    .reply ⟨211, textOf "End"⟩], .returned⟩

/-- The line of a limit in `do_stat`. -/
def limitLine (none some : String) (limit : Nat) : List UInt8 :=
  (if limit = 0 then textOf none else textOf some ++ decimalText limit) ++ textOf "\r\n"

def doStat (tunables : SessionTunables) (s : Serving) : Outcome :=
  ⟨s, [.lreply ⟨211, textOf "FTP server stats: "⟩,
    .lines (limitLine "No session upload bandwidth limit" "Session upload bandwidth limit int bytes/s is "
      tunables.uploadMaxRate),
    .lines (limitLine "No session download bandwidth limit" "Session download bandwidth limit in byte/s is "
      tunables.downloadMaxRate),
    .lines (textOf "At session startup,client count was " ++ decimalText tunables.numClients ++ textOf "\r\n"),
    .reply ⟨211, textOf "End of status."⟩], .returned⟩

def doHelp (s : Serving) : Outcome :=
  ⟨s, [.lreply ⟨214, textOf "The following commands are recognized."⟩,
    .lines (textOf " ABOR ACCT ALLO APPE CDUP CWD  DELE EPRT EPSV FEAT HELP LIST MDTM MKD\r\n"),
    .lines (textOf " MODE NLST NOOP OPTS PASS PASV PORT PWD  QUIT REIN REST RETR RMD  RNFR\r\n"),
    .lines (textOf " RNTO SITE SIZE SMNT STAT STOR STOU STRU SYST TYPE USER XCUP XCWD XMKD\r\n"),
    .lines (textOf " XPWD XRMD\r\n"),
    .reply ⟨214, textOf "Help OK."⟩], .returned⟩

/-- The function of an entry of the table. -/
def cmdFunc (tunables : SessionTunables) (s : Serving) (func : CmdFunc) (arg : List UInt8) (env : CommandEnv) :
    Outcome :=
  match func with
  | .doUser => doUser s arg env
  | .doPass => doPass s arg env
  | .doCwd => doCwd s env
  | .doCdup => doCwd s env
  | .doQuit => doQuit s
  | .doPort => doPort s arg env
  | .doPasv => doPasv s env
  | .doType => doType s arg
  | .doRetr => doRetrAll tunables s arg env
  | .doStor => doStor false s arg env
  | .doAppe => doStor true s arg env
  | .doList => doList s env
  | .doNlst => doList s env
  | .doRest => doRestAll s arg
  | .doAbor => doAbor s
  | .doPwd => doPwd s env
  | .doMkd => doMkd s arg env
  | .doRmd => doRmd s env
  | .doDele => doDele s arg env
  | .doRnfr => doRnfr s arg
  | .doRnto => doRnto s arg env
  | .doSite => doSite tunables s arg env
  | .doSyst => ftpRelply s 215 (textOf "UNIX Type: L8")
  | .doFeat => doFeat s
  | .doSize => ⟨s, [.reply (doSize s.files env.succeeds arg)], .returned⟩
  | .doStat => doStat tunables s
  | .doNoop => ftpRelply s 200 (textOf "NOOP ok.")
  | .doHelp => doHelp s

/-- The arrays that a handler fills from its argument are long enough: `path` in `do_cwd` and `do_mkd`, `cmd` and `arg`
in `do_site`. -/
def arraysHold (func : CmdFunc) (arg : List UInt8) (env : CommandEnv) : Bool :=
  match func with
  | .doCwd => (env.path ++ arg).length < 4096
  | .doMkd => (env.path ++ arg).length < 256
  | .doSite => (splitBlank arg).1.length < 100 && (splitBlank arg).2.length < 100
  | _ => true

/-- A reply and its terminator fit into the array of `ftp_relply` and `ftp_lrelply`. -/
def Said.fits : Said → Bool
  | .reply r | .lreply r => r.fits
  | .lines _ => true

/-- A handler goes wrong where an array is too short. -/
def inArrays (hold : Bool) (s : Serving) (o : Outcome) : Outcome :=
  if !hold then ⟨s, [], .died⟩
  else if o.said.all Said.fits then o
  else ⟨o.server, o.said.takeWhile Said.fits, .died⟩

/-- The loop over `ctrl_cmds_map`, with what the line is. -/
def dispatch (tunables : SessionTunables) (s : Serving) (handled : Handled) (env : CommandEnv) : Outcome :=
  match handled with
  | .func func arg => inArrays (arraysHold func arg env) s (cmdFunc tunables s func arg env)
  | .notImplemented => ftpRelply s 502 (textOf "Unimplement command.")
  | .unknown => ftpRelply s 500 (textOf "Unknown command.")

/-- A handler that an alarm may end: the reply that says so is the last one. -/
def interrupted (o : Outcome) : Option (Alarm × Nat) → Outcome
  | none => o
  | some (alarm, said) => ⟨o.server, o.said.take said ++ [.reply alarm.reply], .exited⟩

/-- A round of the loop of `handle_child`, with the line that has been read. -/
def handleCommand (tunables : SessionTunables) (s : Serving) (cmdline : List UInt8) (env : CommandEnv) : Outcome :=
  interrupted (dispatch tunables s (handleLine cmdline) env) env.alarm

/-- The bytes that are sent. -/
def Said.bytes : Said → List UInt8
  | .reply r => decimalText r.code ++ 0x20 :: r.text ++ [0x0d, 0x0a]
  | .lreply r => decimalText r.code ++ 0x2d :: r.text ++ [0x0d, 0x0a]
  | .lines bytes => bytes

/-- Where nothing is too long, a handler does what it does. -/
theorem inArrays_of_fits {hold : Bool} {s : Serving} {o : Outcome} (hhold : hold = true)
    (hfits : ∀ said ∈ o.said, said.fits = true) : inArrays hold s o = o := by
  rw [inArrays, hhold, Bool.not_true, if_neg Bool.false_ne_true, if_pos (List.all_eq_true.mpr hfits)]

end QLog.Ftpd
