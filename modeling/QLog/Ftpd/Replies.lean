import QLog.Ftpd.Handlers

/-! # One reply for every command

A client reads one final reply for each of its commands. Most commands have it; but a transfer whose connection fails is
not answered at all, a directory that cannot be removed is answered twice, a few failures that nobody expects are passed
over, and arguments may be too long. An alarm is a reply too: it may come in the place of that to a command, or as one
to none. Without any of these, and without `ABOR`, replies and commands stay in step. -/

namespace QLog.Ftpd

open Library

/-- A reply that ends the answer to a command. -/
def Said.isFinal : Said → Bool
  | .reply r => 200 ≤ r.code
  | _ => false

/-- The final replies. -/
def finals (said : List Said) : Nat := said.countP Said.isFinal

/-- A command: the line that has been read, and what its calls come to. -/
structure Received where
  line : List UInt8
  env : CommandEnv

/-- What comes to a session: a command, or the alarm of `start_cmdio_alarm`, while it waits for one. -/
inductive Turn where
  | command (received : Received)
  | idle

/-- A command has come. -/
def Turn.isCommand : Turn → Bool
  | .command _ => true
  | .idle => false

/-- One turn; nothing is left of a session that has ended. -/
def servingStep (tunables : SessionTunables) : Option Serving → Turn → Option Serving × List Said
  | none, _ => (none, [])
  | some s, .command received =>
      let o := handleCommand tunables s received.line received.env
      (if o.ending = .returned then some o.server else none, o.said)
  | some _, .idle => (none, [.reply Alarm.cmdio.reply])

/-- No `ABOR` comes while a command is handled. -/
def Turn.Unaborted : Turn → Prop
  | .command received =>
      (∀ read ∈ received.env.upload.reads, read ≠ .urgent) ∧ ∀ call ∈ received.env.rounds, call.aborted = false
  | .idle => True

/-- The connection of a transfer is chosen, but does not come about. -/
def NoConnection (s : Serving) (env : CommandEnv) : Prop :=
  match s.channel.portAddr, s.channel.pasvListenFd with
  | none, none => False
  | some (port, addr), none => env.priv.connect port (inetNtoa addr) = none
  | none, some fd => env.priv.accept fd = none
  | some _, some _ => True

/-- The connection of a transfer is there. -/
def Connected (s : Serving) (env : CommandEnv) : Prop :=
  match s.channel.portAddr, s.channel.pasvListenFd with
  | some (port, addr), none => env.priv.connect port (inetNtoa addr) ≠ none
  | none, some fd => env.priv.accept fd ≠ none
  | _, _ => False

/-- The loop of a download comes neither to its end nor to an alarm that ends the session. -/
def NeverSent (tunables : SessionTunables) (s : Serving) (env : CommandEnv) : Prop :=
  ∃ file, env.retr.file = some file ∧ env.retr.locked = true ∧ env.retr.regular = true ∧
    (s.transfer.restartPos = 0 ∨ env.retr.seeked = true) ∧
    (env.rounds.foldl (sendRound file tunables.downloadMaxRate)
      (sendStart file s.transfer.restartPos s.transfer.aborReceived env.retr.dataProcess)).progress ∉
        [Progress.ended, Progress.timedOut]

/-- There is no reply to a transfer in front of it: the process of nobody has ended, or the connection does not come
about. -/
def NoTransfer (s : Serving) (env : CommandEnv) : Prop := env.nobody = false ∨ NoConnection s env

/-- The commands that are not answered by one final reply. -/
def Misanswered (tunables : SessionTunables) (s : Serving) (env : CommandEnv) : Handled → Prop
  | .func .doPass arg =>
      env.getpwuid s.uid = true ∧ env.getspnam = true ∧
        (env.crypt arg = none ∨ env.crypt arg = some true ∧ (env.setIds = false ∨ env.chdir = none))
  | .func .doPasv _ => env.nobody = false
  | .func .doPwd _ => env.getcwd = none
  | .func .doMkd arg => env.succeeds = true ∧ (env.path ++ arg).head? ≠ some 0x2f ∧ env.getcwd = none
  | .func .doRmd _ => env.succeeds = false
  | .func .doRetr arg =>
      NoTransfer s env ∨
        Connected s env ∧ (0x2f ∉ env.path ∨ 1024 ≤ (retrPath env.path arg).length ∨ NeverSent tunables s env)
  | .func .doStor _ =>
      NoTransfer s env ∨ Connected s env ∧ s.transfer.restartPos = 0 ∧ env.upload.Unanswered
  | .func .doAppe _ => NoTransfer s env
  | .func .doList _ | .func .doNlst _ => NoTransfer s env ∨ Connected s env ∧ env.listed = false
  | _ => False

/-! ## Transfers -/

section Transfers

variable {tunables : SessionTunables} {s : Serving} {env : CommandEnv}

/-- What `get_transfer_fd` comes to. -/
theorem withTransferFd_cases (s : Serving) (env : CommandEnv) (next : Serving → TransferFd → Outcome) :
    (NoTransfer s env ∧ ((∃ ending, withTransferFd s env next = ⟨s, [], ending⟩) ∨
        ∃ channel, withTransferFd s env next = next { s with channel := channel } .failed)) ∨
      (¬ NoTransfer s env ∧ ¬ Connected s env ∧
        ∃ channel, withTransferFd s env next = next { s with channel := channel } .notChosen) ∨
      (Connected s env ∧ ¬ NoTransfer s env ∧
        ∃ channel, withTransferFd s env next = next { s with channel := channel } .connected) := by
  rw [withTransferFd, NoTransfer, NoConnection, Connected]
  cases env.nobody with
  | false => exact .inl ⟨.inl rfl, .inl ⟨.exited, rfl⟩⟩
  | true =>
      rw [Bool.not_true, if_neg Bool.false_ne_true]
      rcases hport : s.channel.portAddr with _ | ⟨port, addr⟩
      · rcases hlisten : s.channel.pasvListenFd with _ | fd
        · rw [getTransferFd_of_neither hport hlisten]
          exact .inr (.inl ⟨by simp, id, s.channel, rfl⟩)
        · obtain ⟨channel, hget, -⟩ := getTransferFd_of_pasv env.priv 0 hport hlisten
          rw [hget]
          dsimp only
          cases haccept : env.priv.accept fd with
          | none => exact .inl ⟨.inr rfl, .inr ⟨channel, rfl⟩⟩
          | some conn => exact .inr (.inr ⟨Option.some_ne_none conn, by simp, channel, rfl⟩)
      · rcases hlisten : s.channel.pasvListenFd with _ | fd
        · obtain ⟨channel, hget, -⟩ := getTransferFd_of_port env.priv 0 hport hlisten
          rw [hget]
          dsimp only
          cases hconnect : env.priv.connect port (inetNtoa addr) with
          | none => exact .inl ⟨.inr rfl, .inr ⟨channel, rfl⟩⟩
          | some conn => exact .inr (.inr ⟨Option.some_ne_none conn, by simp, channel, rfl⟩)
        · rw [getTransferFd_of_both (by rw [hport]; rfl) (by rw [hlisten]; rfl)]
          exact .inl ⟨.inr trivial, .inl ⟨.stuck, rfl⟩⟩

/-- An upload without `ABOR`. -/
theorem abor_uploadLoop {reads : List DataRead} (hreads : ∀ read ∈ reads, read ≠ .urgent) (file : List UInt8)
    (pos : Nat) : (uploadLoop file pos false reads).abor = false := by
  induction reads generalizing file pos with
  | nil => rfl
  | cons read reads ih =>
      obtain ⟨hread, hrest⟩ := List.forall_mem_cons.mp hreads
      cases read with
      | urgent => exact absurd rfl hread
      | interrupted => exact ih hrest file pos
      | failed => rfl
      | timeout chunk written => rfl
      | bytes chunk written =>
          simp only [uploadLoop, Bool.false_eq_true, if_false]
          split_ifs
          · rfl
          · rfl
          · exact ih hrest _ _

/-- The replies of an upload that has come to its loop. -/
theorem finals_afterLoop (session : Session) (files : Files) (name : List UInt8) (size : Nat) {uploaded : Uploaded}
    (habor : uploaded.abor = false) :
    finals ((afterLoop session files name size uploaded).replies.map .reply) = 1 ∧
      finals ((afterLoop session files name size uploaded).replies.map Said.reply).dropLast = 0 := by
  rw [afterLoop, habor]
  cases uploaded.timedOut with
  | true => exact ⟨rfl, rfl⟩
  | false =>
      rw [if_neg Bool.false_ne_true, uploadReplies, if_neg Bool.false_ne_true, if_neg Bool.false_ne_true]
      split_ifs <;> exact ⟨rfl, rfl⟩

/-- The replies to an upload with a connection. -/
theorem finals_uploadFile (isAppend : Bool) (session : Session) (files : Files) (name : List UInt8) (offset : Nat)
    (env : UploadEnv) (habor : session.aborReceived = false) (hreads : ∀ read ∈ env.reads, read ≠ .urgent) :
    (finals ((uploadFile isAppend session files name offset env).replies.map .reply) = 1 ↔
        ¬ (isAppend = false ∧ offset = 0 ∧ env.Unanswered)) ∧
      finals ((uploadFile isAppend session files name offset env).replies.map Said.reply).dropLast = 0 := by
  rcases uploadFile_cases isAppend session files name offset env with
    ⟨hsilent, heq⟩ | ⟨hanswered, ⟨files', reply, ended, heq, hcode, -⟩ | ⟨-, heq⟩⟩
  · rw [heq]
    exact ⟨⟨fun h => absurd h Nat.zero_ne_one, fun h => absurd hsilent h⟩, rfl⟩
  · rw [heq]
    refine ⟨⟨fun _ => hanswered, fun _ => ?_⟩, rfl⟩
    rw [List.map_singleton, finals, List.countP_singleton, Said.isFinal, decide_eq_true hcode]
    rfl
  · rw [heq, habor]
    obtain ⟨hfinals, hlast⟩ := finals_afterLoop session files name
      (keptOf isAppend offset ((files name).getD [])).length (abor_uploadLoop hreads
        (keptOf isAppend offset ((files name).getD []))
        (if isAppend then (keptOf isAppend offset ((files name).getD [])).length else offset))
    exact ⟨⟨fun _ => hanswered, fun _ => hfinals⟩, hlast⟩

/-- A round of a download. -/
theorem flag_sendRound {file : List UInt8} {rateMax : Nat} {sending : Sending} {call : SendCall}
    (hflag : sending.flag = 0 ∨ sending.flag = 2) :
    (sendRound file rateMax sending call).flag = 0 ∨ (sendRound file rateMax sending call).flag = 2 := by
  rcases sendRound_cases file rateMax sending call with ⟨-, hsame⟩ | ⟨-, -, hover⟩ | ⟨-, -, hmade⟩
  · rwa [hsame]
  · rwa [hover]
  · rcases hmade.flag with hkept | hset
    · rwa [hkept]
    · exact .inr hset

/-- A download without `ABOR`. -/
theorem abor_sendRounds (file : List UInt8) (rateMax : Nat) {rounds : List SendCall} (sending : Sending)
    (hrounds : ∀ call ∈ rounds, call.aborted = false) (habor : sending.aborReceived = false)
    (hflag : sending.flag = 0 ∨ sending.flag = 2) :
    (rounds.foldl (sendRound file rateMax) sending).aborReceived = false ∧
      ((rounds.foldl (sendRound file rateMax) sending).flag = 0 ∨
        (rounds.foldl (sendRound file rateMax) sending).flag = 2) := by
  induction rounds generalizing sending with
  | nil => exact ⟨habor, hflag⟩
  | cons call rounds ih =>
      obtain ⟨hcall, hrest⟩ := List.forall_mem_cons.mp hrounds
      exact ih _ hrest (aborReceived_sendRound file rateMax habor hcall) (flag_sendRound hflag)

/-- The replies to a download without `ABOR`. -/
theorem finals_sendReplies {sending : Sending} (text : List UInt8) (habor : sending.aborReceived = false)
    (hflag : sending.flag = 0 ∨ sending.flag = 2) :
    finals (([⟨150, text⟩] ++ sendReplies sending : List Reply).map .reply) = 1 ∧
      finals (([⟨150, text⟩] ++ sendReplies sending : List Reply).map Said.reply).dropLast = 0 := by
  have hone : ∃ reply, sendReplies sending = [reply] ∧ 200 ≤ reply.code := by
    rw [sendReplies, habor]
    by_cases hsent : sending.bytesToSend = 0
    · exact ⟨⟨226, textOf "Transfer complete."⟩, by simp [hsent], by decide⟩
    · rcases hflag with hflag | hflag
      · exact ⟨⟨226, textOf "Transfer complete."⟩, by simp [hflag], by decide⟩
      · exact ⟨⟨426, textOf "Failure writting to network stream."⟩, by simp [hsent, hflag], by decide⟩
  obtain ⟨reply, hreply, hcode⟩ := hone
  rw [hreply]
  refine ⟨?_, rfl⟩
  simp [finals, Said.isFinal, hcode]

end Transfers

/-! ## Commands -/

/-- A command is answered by one final reply, unless it is one of the bad ones, and it is not aborted. -/
structure Answers (o : Outcome) (bad : Prop) : Prop where
  finals_eq : finals o.said = 1 ↔ ¬ bad
  /-- what is cut off includes the final reply -/
  cut : finals o.said.dropLast = 0 ∨ ∀ said ∈ o.said, said.fits = true
  unaborted : o.server.transfer.aborReceived = false

section Commands

variable {tunables : SessionTunables} {s : Serving} {env : CommandEnv} {arg : List UInt8} {bad : Prop}

theorem answers_relply {code : Nat} {text : List UInt8} (habor : s.transfer.aborReceived = false)
    (hcode : 200 ≤ code) (hbad : ¬ bad) : Answers (ftpRelply s code text) bad where
  finals_eq := by
    rw [ftpRelply, finals, List.countP_singleton, Said.isFinal, decide_eq_true hcode]
    exact ⟨fun _ => hbad, fun _ => rfl⟩
  cut := .inl rfl
  unaborted := habor

/-- A command that is not answered. -/
theorem answers_silent {ending : Ending} (habor : s.transfer.aborReceived = false) (hbad : bad) :
    Answers ⟨s, [], ending⟩ bad where
  finals_eq := ⟨fun h => absurd h Nat.zero_ne_one, fun h => absurd hbad h⟩
  cut := .inl rfl
  unaborted := habor

/-- A command whose last words are its only final reply. -/
theorem answers_said {said : List Said} {ending : Ending} (habor : s.transfer.aborReceived = false)
    (hsaid : finals said = 1) (hlast : finals said.dropLast = 0) (hbad : ¬ bad) : Answers ⟨s, said, ending⟩ bad where
  finals_eq := ⟨fun _ => hbad, fun _ => hsaid⟩
  cut := .inl hlast
  unaborted := habor

theorem answers_pass (habor : s.transfer.aborReceived = false) :
    Answers (doPass s arg env) (Misanswered tunables s env (.func .doPass arg)) := by
  rw [doPass, Misanswered]
  cases env.getpwuid s.uid with
  | false => exact answers_relply habor (by decide) (by simp)
  | true =>
      cases env.getspnam with
      | false => exact answers_relply habor (by decide) (by simp)
      | true =>
          rcases env.crypt arg with _ | _ | _
          · exact answers_silent habor (by simp)
          · exact answers_relply habor (by decide) (by simp)
          · cases env.setIds with
            | false => exact answers_silent habor (by simp)
            | true =>
                cases env.chdir with
                | none => exact answers_silent habor (by simp)
                | some files => exact answers_relply habor (by decide) (by simp)

theorem answers_pwd (habor : s.transfer.aborReceived = false) :
    Answers (doPwd s env) (Misanswered tunables s env (.func .doPwd arg)) := by
  rw [doPwd, Misanswered]
  cases env.getcwd with
  | none => exact answers_silent habor rfl
  | some dir => exact answers_relply habor (by decide) (Option.some_ne_none dir)

theorem answers_mkd (habor : s.transfer.aborReceived = false) :
    Answers (doMkd s arg env) (Misanswered tunables s env (.func .doMkd arg)) := by
  rw [doMkd, Misanswered]
  cases env.succeeds with
  | false => exact answers_relply habor (by decide) (by simp)
  | true =>
      rw [Bool.not_true, if_neg Bool.false_ne_true]
      by_cases habsolute : (env.path ++ arg).head? = some 0x2f
      · rw [if_pos habsolute]
        exact answers_relply habor (by decide) fun h => h.2.1 habsolute
      · rw [if_neg habsolute]
        cases env.getcwd with
        | none => exact answers_silent habor ⟨rfl, habsolute, rfl⟩
        | some dir =>
            dsimp only
            split_ifs
            · exact answers_relply habor (by decide) (by simp)
            · exact answers_relply habor (by decide) (by simp)

theorem answers_rmd (habor : s.transfer.aborReceived = false) :
    Answers (doRmd s env) (Misanswered tunables s env (.func .doRmd arg)) := by
  have hfits : ∀ said ∈ [Said.reply ⟨550, textOf "Rmove directory operation failed."⟩,
      .reply ⟨250, textOf "Remove directory operation successful."⟩], said.fits = true := by decide
  rw [doRmd, Misanswered]
  cases env.succeeds with
  | false => exact ⟨⟨fun h => absurd h (Nat.succ_ne_self 1), fun h => absurd rfl h⟩, .inr hfits, habor⟩
  | true => exact answers_said habor rfl rfl (by simp)

/-- A transfer. -/
theorem answers_withTransferFd {next : Serving → TransferFd → Outcome} (habor : s.transfer.aborReceived = false)
    (hbad : NoTransfer s env → bad)
    (hfailed : ∀ channel, bad → Answers (next { s with channel := channel } .failed) bad)
    (hnotChosen : ∀ channel, ¬ NoTransfer s env → ¬ Connected s env →
      Answers (next { s with channel := channel } .notChosen) bad)
    (hconnected : ∀ channel, ¬ NoTransfer s env → Connected s env →
      Answers (next { s with channel := channel } .connected) bad) : Answers (withTransferFd s env next) bad := by
  rcases withTransferFd_cases s env next with
    ⟨hnone, ⟨ending, hsilent⟩ | ⟨channel, hnext⟩⟩ | ⟨hsome, hnot, channel, hnext⟩ | ⟨hconn, hsome, channel, hnext⟩
  · rw [hsilent]
    exact answers_silent habor (hbad hnone)
  · rw [hnext]
    exact hfailed channel (hbad hnone)
  · rw [hnext]
    exact hnotChosen channel hsome hnot
  · rw [hnext]
    exact hconnected channel hsome hconn

/-- The commands that list a directory. -/
theorem answers_list (habor : s.transfer.aborReceived = false) :
    Answers (doList s env) (NoTransfer s env ∨ Connected s env ∧ env.listed = false) := by
  rw [doList]
  refine answers_withTransferFd habor .inl ?_ ?_ ?_
  · exact fun channel hbad => answers_silent habor hbad
  · exact fun channel hsome hnot => answers_relply habor (by decide) fun h => h.elim hsome fun h => hnot h.1
  · intro channel hsome hconn
    dsimp only
    cases hlisted : env.listed with
    | true => exact answers_said habor rfl rfl fun h => h.elim hsome fun h => Bool.noConfusion h.2
    | false =>
        exact ⟨⟨fun h => absurd h Nat.zero_ne_one, fun h => absurd (.inr ⟨hconn, rfl⟩) h⟩, .inl rfl, habor⟩

theorem answers_stor (arg : List UInt8) (isAppend : Bool) (habor : s.transfer.aborReceived = false)
    (hreads : ∀ read ∈ env.upload.reads, read ≠ .urgent) :
    Answers (doStor isAppend s arg env) (NoTransfer s env ∨ Connected s env ∧ isAppend = false ∧
      s.transfer.restartPos = 0 ∧ env.upload.Unanswered) := by
  rw [doStor]
  refine answers_withTransferFd habor .inl ?_ ?_ ?_
  · exact fun channel hbad => answers_silent habor hbad
  · exact fun channel hsome hnot => answers_said habor rfl rfl fun h => h.elim hsome fun h => hnot h.1
  · intro channel hsome hconn
    obtain ⟨hfinals, hlast⟩ := finals_uploadFile isAppend { s.transfer with restartPos := 0, dataFd := true }
      s.files arg s.transfer.restartPos { env.upload with transferFd := .connected } habor hreads
    refine ⟨hfinals.trans (not_congr ⟨fun h => .inr ⟨hconn, h⟩, fun h => (h.resolve_left hsome).2⟩), .inl hlast, ?_⟩
    exact aborReceived_uploadFile isAppend habor

/-- A download that is refused, or comes to its loop. -/
theorem doRetr_cases (arg : List UInt8) (session : Session) (retr : RetrEnv) (habor : session.aborReceived = false) :
    (∃ session' reply, doRetr session arg { retr with transferFd := .connected } = (session', [reply], none) ∧
        session'.aborReceived = false ∧ 200 ≤ reply.code ∧
        ¬ ∃ file, retr.file = some file ∧ retr.locked = true ∧ retr.regular = true ∧
          (session.restartPos = 0 ∨ retr.seeked = true)) ∨
      ∃ session' text file, doRetr session arg { retr with transferFd := .connected } =
          (session', [⟨150, text⟩], some (file, session.restartPos)) ∧ session'.aborReceived = false ∧
        retr.file = some file ∧ retr.locked = true ∧ retr.regular = true ∧
          (session.restartPos = 0 ∨ retr.seeked = true) := by
  rw [doRetr]
  dsimp only
  -- the calls fail one after the other
  cases hfile : retr.file with
  | none => exact .inl ⟨_, _, rfl, habor, by decide, by simp⟩
  | some file =>
      dsimp only
      by_cases hlocked : retr.locked = true ∧ retr.regular = true
      · by_cases hseeked : session.restartPos = 0 ∨ retr.seeked = true
        · have hseek : (decide (session.restartPos ≠ 0) && !retr.seeked) = false := by
            rcases hseeked with h | h <;> simp [h]
          rw [hlocked.1, hlocked.2, hseek]
          exact .inr ⟨_, _, file, rfl, habor, rfl, rfl, rfl, hseeked⟩
        · rw [not_or, Bool.not_eq_true] at hseeked
          rw [hlocked.1, hlocked.2, hseeked.2, decide_eq_true hseeked.1]
          exact .inl ⟨_, _, rfl, habor, by decide, by simp [hseeked.1]⟩
      · have hlock : (!retr.locked || !retr.regular) = true := by
          cases hl : retr.locked with
          | false => rfl
          | true => simpa [hl] using hlocked
        rw [hlock]
        refine .inl ⟨_, _, rfl, habor, by decide, ?_⟩
        rintro ⟨_, _, hl, hr, _⟩
        exact hlocked ⟨hl, hr⟩

theorem answers_retr (habor : s.transfer.aborReceived = false)
    (hrounds : ∀ call ∈ env.rounds, call.aborted = false) :
    Answers (doRetrAll tunables s arg env) (Misanswered tunables s env (.func .doRetr arg)) := by
  rw [doRetrAll, Misanswered]
  refine answers_withTransferFd habor .inl ?_ ?_ ?_
  · exact fun channel hbad => answers_silent habor hbad
  · exact fun channel hsome hnot => answers_said habor rfl rfl fun h => h.elim hsome fun h => hnot h.1
  · intro channel hsome hconn
    dsimp only
    by_cases hpath : 0x2f ∉ env.path ∨ 1024 ≤ (retrPath env.path arg).length
    · rw [if_pos ⟨rfl, hpath⟩]
      exact answers_silent habor (.inr ⟨hconn, or_assoc.mp (.inl hpath)⟩)
    · rw [if_neg fun h => hpath h.2]
      rcases doRetr_cases arg s.transfer env.retr habor with
        ⟨session', reply, hretr, habor', hcode, hrefused⟩ | ⟨session', text, file, hretr, habor', hentered⟩
      · rw [hretr]
        refine answers_said habor' ?_ rfl ?_
        · rw [List.map_singleton, finals, List.countP_singleton, Said.isFinal, decide_eq_true hcode]
          rfl
        · rintro (hnone | ⟨-, hbad⟩)
          · exact hsome hnone
          · obtain ⟨file, hfile, hlocked, hregular, hseeked, -⟩ := (or_assoc.mpr hbad).resolve_left hpath
            exact hrefused ⟨file, hfile, hlocked, hregular, hseeked⟩
      · obtain ⟨hunaborted, hflag⟩ := abor_sendRounds file tunables.downloadMaxRate
          (sendStart file s.transfer.restartPos session'.aborReceived env.retr.dataProcess) hrounds habor' (.inl rfl)
        obtain ⟨hreplies, hlast⟩ := finals_sendReplies text hunaborted hflag
        have hnever : NeverSent tunables s env ↔ (env.rounds.foldl (sendRound file tunables.downloadMaxRate)
            (sendStart file s.transfer.restartPos session'.aborReceived env.retr.dataProcess)).progress ∉
              [Progress.ended, Progress.timedOut] := by
          obtain ⟨hfile, hlocked, hregular, hseeked⟩ := hentered
          rw [NeverSent, habor, habor']
          constructor
          · rintro ⟨file', hfile', -, -, -, hprogress⟩
            obtain rfl := Option.some_inj.mp (hfile.symm.trans hfile')
            exact hprogress
          · exact fun hprogress => ⟨file, hfile, hlocked, hregular, hseeked, hprogress⟩
        rw [hretr]
        dsimp only
        generalize env.rounds.foldl (sendRound file tunables.downloadMaxRate)
          (sendStart file s.transfer.restartPos session'.aborReceived env.retr.dataProcess) = sending at *
        have hbad : (NoTransfer s env ∨ Connected s env ∧
            (0x2f ∉ env.path ∨ 1024 ≤ (retrPath env.path arg).length ∨ NeverSent tunables s env)) ↔
              sending.progress ∉ [Progress.ended, Progress.timedOut] := by
          rw [← or_assoc (b := 1024 ≤ _), or_iff_right hpath, or_iff_right hsome, and_iff_right hconn]
          exact hnever
        cases hprogress : sending.progress with
        | sending | died =>
            rw [hprogress] at hbad
            exact ⟨⟨fun h => absurd h Nat.zero_ne_one, fun h => absurd (hbad.mpr (by decide)) h⟩, .inl rfl, habor'⟩
        | timedOut =>
            rw [hprogress] at hbad
            exact answers_said habor' rfl rfl fun h => absurd (hbad.mp h) (by decide)
        | ended =>
            rw [hprogress] at hbad
            exact answers_said rfl hreplies hlast fun h => absurd (hbad.mp h) (by decide)

theorem answers_user (habor : s.transfer.aborReceived = false) : Answers (doUser s arg env) False := by
  rw [doUser]
  cases env.getpwnam arg with
  | none => exact answers_relply habor (by decide) id
  | some uid => exact answers_relply habor (by decide) id

theorem answers_cwd (habor : s.transfer.aborReceived = false) : Answers (doCwd s env) False := by
  rw [doCwd]
  cases env.chdir with
  | none => exact answers_relply habor (by decide) id
  | some files => exact answers_relply habor (by decide) id

theorem answers_pasv (habor : s.transfer.aborReceived = false) : Answers (doPasv s env) (env.nobody = false) := by
  rw [doPasv]
  cases env.nobody with
  | false => exact answers_silent habor rfl
  | true => exact answers_relply habor (by decide) Bool.noConfusion

theorem answers_type (habor : s.transfer.aborReceived = false) : Answers (doType s arg) False := by
  rw [doType]
  split_ifs
  · exact answers_relply habor (by decide) id
  · exact answers_relply habor (by decide) id
  · exact answers_relply habor (by decide) id

theorem answers_dele (habor : s.transfer.aborReceived = false) : Answers (doDele s arg env) False := by
  rw [doDele]
  split_ifs
  · exact answers_relply habor (by decide) id
  · exact answers_relply habor (by decide) id

theorem answers_rnto (habor : s.transfer.aborReceived = false) : Answers (doRnto s arg env) False := by
  rw [doRnto]
  cases s.rnfrName with
  | none => exact answers_relply habor (by decide) id
  | some name =>
      dsimp only
      split_ifs
      · exact answers_relply habor (by decide) id
      · exact answers_relply habor (by decide) id

theorem answers_site (habor : s.transfer.aborReceived = false) : Answers (doSite tunables s arg env) False := by
  simp only [doSite, doSiteChmod, doSiteUmask]
  split_ifs
  all_goals exact answers_relply habor (by decide) id

theorem answers_size (habor : s.transfer.aborReceived = false) (ok : Bool) :
    Answers ⟨s, [.reply (doSize s.files ok arg)], .returned⟩ False := by
  rw [doSize]
  cases s.files arg with
  | none => exact answers_said habor rfl rfl id
  | some file => cases ok <;> exact answers_said habor rfl rfl id

/-- What a handler answers. -/
theorem answers_cmdFunc (func : CmdFunc) (habor : s.transfer.aborReceived = false)
    (hreads : ∀ read ∈ env.upload.reads, read ≠ .urgent) (hrounds : ∀ call ∈ env.rounds, call.aborted = false) :
    Answers (cmdFunc tunables s func arg env) (Misanswered tunables s env (.func func arg)) := by
  cases func with
  | doUser => exact answers_user habor
  | doPass => exact answers_pass habor
  | doCwd => exact answers_cwd habor
  | doCdup => exact answers_cwd habor
  | doPasv => exact answers_pasv habor
  | doType => exact answers_type habor
  | doRetr => exact answers_retr habor hrounds
  | doStor =>
      have hstor := answers_stor arg false habor hreads
      simp only [true_and] at hstor
      exact hstor
  | doAppe =>
      have happe := answers_stor arg true habor hreads
      simp only [Bool.true_eq_false, false_and, and_false, or_false] at happe
      exact happe
  | doList => exact answers_list habor
  | doNlst => exact answers_list habor
  | doPwd => exact answers_pwd habor
  | doMkd => exact answers_mkd habor
  | doRmd => exact answers_rmd habor
  | doDele => exact answers_dele habor
  | doRnto => exact answers_rnto habor
  | doSite => exact answers_site habor
  | doSize => exact answers_size habor env.succeeds
  | doQuit | doPort | doRest | doAbor | doRnfr | doSyst | doFeat | doStat | doNoop | doHelp =>
      exact answers_said habor rfl rfl id

/-- A handler whose arrays may be too short. -/
theorem Answers.inArrays {o : Outcome} (h : Answers o bad) (habor : s.transfer.aborReceived = false) (hold : Bool) :
    Answers (inArrays hold s o) (bad ∨ hold = false ∨ ∃ said ∈ o.said, said.fits = false) := by
  rw [Ftpd.inArrays]
  cases hold with
  | false => exact answers_silent habor (.inr (.inl rfl))
  | true =>
      rw [Bool.not_true, if_neg Bool.false_ne_true]
      by_cases hfits : o.said.all Said.fits = true
      · rw [if_pos hfits]
        have hall := List.all_eq_true.mp hfits
        refine ⟨h.finals_eq.trans (not_congr ⟨.inl, ?_⟩), h.cut, h.unaborted⟩
        rintro (hbad | htrue | ⟨said, hsaid, hlong⟩)
        · exact hbad
        · exact Bool.noConfusion htrue
        · rw [hall said hsaid] at hlong
          exact Bool.noConfusion hlong
      · rw [if_neg hfits]
        obtain ⟨said, hsaid, hlong⟩ : ∃ said ∈ o.said, said.fits = false := by
          by_contra hnone
          refine hfits (List.all_eq_true.mpr fun said hsaid => ?_)
          by_contra hlong
          exact hnone ⟨said, hsaid, Bool.not_eq_true _ ▸ hlong⟩
        -- what has been said in full does not include the final reply
        have hzero : finals (o.said.takeWhile Said.fits) = 0 := by
          have hlast := h.cut.resolve_right fun hall => by
            rw [hall said hsaid] at hlong
            exact Bool.noConfusion hlong
          have hrest : o.said.dropWhile Said.fits ≠ [] := fun hnil =>
            hfits (List.all_eq_true.mpr (List.dropWhile_eq_nil_iff.mp hnil))
          rw [← List.takeWhile_append_dropWhile (p := Said.fits) (l := o.said),
            List.dropLast_append_of_ne_nil hrest, finals, List.countP_append] at hlast
          exact (Nat.add_eq_zero_iff.mp hlast).1
        have hlast : finals (o.said.takeWhile Said.fits).dropLast = 0 :=
          Nat.le_zero.mp (hzero ▸ (List.dropLast_sublist _).countP_le)
        refine ⟨⟨fun hone => ?_, fun hbad => absurd (.inr (.inr ⟨said, hsaid, hlong⟩)) hbad⟩, .inl hlast, h.unaborted⟩
        rw [hzero] at hone
        exact absurd hone Nat.zero_ne_one

/-- A command for which an array of its handler is too short, or a reply too long. -/
def TooLong (tunables : SessionTunables) (s : Serving) (env : CommandEnv) : Handled → Prop
  | .func func arg =>
      arraysHold func arg env = false ∨ ∃ said ∈ (cmdFunc tunables s func arg env).said, said.fits = false
  | _ => False

/-- **What answers a command** that no alarm interrupts: one final reply, unless it is one of those that are not
answered by one, or is too long. -/
theorem answers_dispatch (tunables : SessionTunables) (s : Serving) (received : Received)
    (habor : s.transfer.aborReceived = false) (hunaborted : (Turn.command received).Unaborted) :
    Answers (dispatch tunables s (handleLine received.line) received.env)
      (Misanswered tunables s received.env (handleLine received.line) ∨
        TooLong tunables s received.env (handleLine received.line)) := by
  cases handleLine received.line with
  | notImplemented => exact answers_relply habor (by decide) fun h => h.elim id id
  | unknown => exact answers_relply habor (by decide) fun h => h.elim id id
  | func func arg => exact (answers_cmdFunc func habor hunaborted.1 hunaborted.2).inArrays habor _

/-- A command is neither too long nor one that is not answered by one final reply; or an alarm ends the process, before
there is such a reply. -/
def Received.Answered (tunables : SessionTunables) (s : Serving) (received : Received) : Prop :=
  match received.env.alarm with
  | none =>
      ¬ (Misanswered tunables s received.env (handleLine received.line) ∨
        TooLong tunables s received.env (handleLine received.line))
  | some (_, said) => finals ((dispatch tunables s (handleLine received.line) received.env).said.take said) = 0

theorem finals_handleCommand (tunables : SessionTunables) (s : Serving) (received : Received)
    (habor : s.transfer.aborReceived = false) (hunaborted : (Turn.command received).Unaborted) :
    finals (handleCommand tunables s received.line received.env).said = 1 ↔ received.Answered tunables s := by
  rw [handleCommand, Received.Answered]
  rcases received.env.alarm with _ | ⟨alarm, said⟩
  · exact (answers_dispatch tunables s received habor hunaborted).finals_eq
  · have halarm : finals [Said.reply alarm.reply] = 1 := by cases alarm <;> rfl
    rw [interrupted, finals, List.countP_append]
    rw [finals] at halarm
    rw [halarm]
    exact Nat.add_eq_right

/-- A command leaves no `ABOR` behind. -/
theorem aborReceived_handleCommand (tunables : SessionTunables) (s : Serving) (received : Received)
    (habor : s.transfer.aborReceived = false) (hunaborted : (Turn.command received).Unaborted) :
    (handleCommand tunables s received.line received.env).server.transfer.aborReceived = false := by
  have hdispatch := (answers_dispatch tunables s received habor hunaborted).unaborted
  rw [handleCommand]
  rcases received.env.alarm with _ | ⟨alarm, said⟩
  · exact hdispatch
  · exact hdispatch

end Commands

/-! ## Sessions -/

/-- A command comes to a session that is there, and is answered; a session that is there is not idle for too long. -/
def AnsweredOnce (tunables : SessionTunables) (s : Option Serving) : Turn → Prop
  | .command received => ∃ s', s = some s' ∧ received.Answered tunables s'
  | .idle => s = none

/-- Every command is answered by one final reply, and there is no other, exactly if none is misanswered and the session
is never idle for too long. -/
theorem along_answeredOnce (tunables : SessionTunables) {s : Option Serving} {turns : List Turn}
    (hs : ∀ s', s = some s' → s'.transfer.aborReceived = false) (hunaborted : ∀ turn ∈ turns, turn.Unaborted) :
    Along (servingStep tunables)
        (fun s turn => (servingStep tunables s turn).2.countP Said.isFinal = turn.isCommand.toNat) s turns ↔
      Along (servingStep tunables) (AnsweredOnce tunables) s turns := by
  induction turns generalizing s with
  | nil => exact Iff.rfl
  | cons turn turns ih =>
      obtain ⟨hturn, hrest⟩ := List.forall_mem_cons.mp hunaborted
      rw [Along, Along]
      rcases s with _ | s
      -- nothing is said any more
      · refine and_congr ?_ (ih (fun s' h => absurd h.symm (Option.some_ne_none s')) hrest)
        cases turn with
        | idle => exact ⟨fun _ => rfl, fun _ => rfl⟩
        | command received =>
            constructor
            · exact fun h => absurd h Nat.zero_ne_one
            · rintro ⟨s', hs', -⟩
              exact absurd hs'.symm (Option.some_ne_none s')
      · cases turn with
        | idle =>
            refine and_congr ⟨fun h => absurd h Nat.one_ne_zero, fun h => absurd h (Option.some_ne_none s)⟩ ?_
            exact ih (fun s' h => absurd h.symm (Option.some_ne_none s')) hrest
        | command received =>
            refine and_congr ?_ (ih ?_ hrest)
            · refine (finals_handleCommand tunables s received (hs s rfl) hturn).trans ⟨fun h => ⟨s, rfl, h⟩, ?_⟩
              rintro ⟨s', hs', h⟩
              rwa [← Option.some_inj.mp hs'] at h
            · intro s' hs'
              rw [servingStep] at hs'
              dsimp only at hs'
              split_ifs at hs'
              rw [← Option.some_inj.mp hs']
              exact aborReceived_handleCommand tunables s received (hs s rfl) hturn

/-- `NOOP`, and a directory that is removed when an alarm ends the session. -/
def twoCommands : List Turn :=
  [.command ⟨textOf "NOOP\r\n", goodEnv⟩, .command ⟨textOf "RMD a\r\n", { goodEnv with alarm := some (.cmdio, 0) }⟩,
    .idle]

end QLog.Ftpd
