import QLog.Ftpd.CommandLine
import QLog.Library.History

/-! # The control connection

A client sends lines, they arrive in pieces, and `readline` looks at what has arrived before it takes a line out of the
socket. It takes exactly the line, but all that it has looked at stands in the buffer, and the session makes its command
of the whole of it. So a client that sends a line before the reply to the last one may be misunderstood, though no line
is lost; one that waits is understood, however its lines arrive. A session that is idle for too long is ended by its
alarm, whatever has arrived by then. -/

namespace QLog.Ftpd

open Library

/-- `'\n'` -/
def lf : UInt8 := 0x0a

/-- How the process of a session ends: by `QUIT`, when `recv` fails or finds the connection closed, by the alarm of
`start_cmdio_alarm`, because the buffer of `readline` is full, or in a handler. -/
inductive LinkEnd where
  | quit
  | closed
  | timeout
  | full
  | left
  deriving DecidableEq

/-- A client, the connection and a session: the lines that are still to be sent, how many have been sent, what the
session has not read of them, what this call of `readline` has read, how many lines have been handled, and how the
process has ended. -/
structure Link where
  toSend : List (List UInt8)
  sent : Nat
  pending : List UInt8
  cmdline : List UInt8
  answered : Nat
  ended : Option LinkEnd

/-- A client with lines to send and a session that reads. -/
def linkStart (requests : List (List UInt8)) : Link := ⟨requests, 0, [], [], 0, none⟩

/-- What happens: the client sends its next line, `recv_peek` returns when some bytes have arrived, and if they end a
line its handler returns or not, `recv` fails or finds the connection closed, or `handle_alarm_timeout` runs. -/
inductive LinkEvent where
  | send
  | peek (arrived : Nat) (returns : Bool)
  | closed
  | alarm
  deriving DecidableEq

/-- The command is `QUIT`, where `do_quit` ends the process. -/
def isQuit (cmdline : List UInt8) : Bool :=
  match handleLine cmdline with
  | .func .doQuit _ => true
  | _ => false

/-- Whether the process ends with a line that has been handled. -/
def endOf (cmdline : List UInt8) (returns : Bool) : Option LinkEnd :=
  if isQuit cmdline then some .quit else if returns then none else some .left

/-- What `recv_peek` looks at. -/
def Link.peeked (s : Link) (arrived : Nat) : List UInt8 :=
  s.pending.take (min arrived (maxCommandLine - s.cmdline.length))

/-- One step; what the session makes a command of is put out. -/
def linkStep (s : Link) : LinkEvent → Link × List (List UInt8)
  | .send =>
      match s.toSend with
      | [] => (s, [])
      | request :: rest => ({ s with toSend := rest, sent := s.sent + 1, pending := s.pending ++ request }, [])
  | .peek arrived returns =>
      -- nothing has arrived, and `recv` blocks
      if s.ended ≠ none ∨ s.pending = [] ∨ arrived = 0 then (s, [])
      -- the buffer is full, which looks like the end of the connection
      else if maxCommandLine ≤ s.cmdline.length then ({ s with ended := some .full }, [])
      else if lf ∈ s.peeked arrived then
        let line := (s.peeked arrived).takeWhile (· ≠ lf)
        let text := s.cmdline ++ s.peeked arrived
        ({ s with
            pending := s.pending.drop (line.length + 1)
            cmdline := []
            answered := s.answered + 1
            ended := endOf text returns }, [text])
      else
        ({ s with
            pending := s.pending.drop (s.peeked arrived).length
            cmdline := s.cmdline ++ s.peeked arrived }, [])
  | .closed => ({ s with ended := s.ended.or (some .closed) }, [])
  -- 421, and the process ends
  | .alarm => ({ s with ended := s.ended.or (some .timeout) }, [])

/-- A line that fits into the buffer. -/
def IsLine (line : List UInt8) : Prop := ∃ text, line = text ++ [lf] ∧ lf ∉ text ∧ line.length ≤ maxCommandLine

/-- The client does not send a line before all that it has sent have been handled. -/
def WaitsForReply (s : Link) (event : LinkEvent) : Prop := event = .send → s.answered = s.sent

instance (s : Link) (event : LinkEvent) : Decidable (WaitsForReply s event) :=
  inferInstanceAs (Decidable (event = .send → s.answered = s.sent))

/-- What has happened if a session has ended, with the lines it has read. -/
def LinkEnd.Cause (events : List LinkEvent) (seen : List (List UInt8)) : LinkEnd → Prop
  | .quit => ∃ text ∈ seen, isQuit text = true
  | .closed => .closed ∈ events
  | .timeout => .alarm ∈ events
  | .full => False
  | .left => ∃ arrived, .peek arrived false ∈ events

/-! ## What every step keeps -/

/-- The lines that have been handled, the lines that have not been read to their end, and those that have not been sent
are the lines of the client; what was handled is one line each, and maybe some of what was sent after it. -/
structure Reading (waits : Prop) (requests : List (List UInt8)) (s : Link) (seen : List (List UInt8)) : Prop where
  lines : ∃ handled waiting, requests = handled ++ waiting ++ s.toSend ∧ s.cmdline ++ s.pending = waiting.flatten ∧
    handled.length = s.answered ∧ s.answered + waiting.length = s.sent
  unfinished : lf ∉ s.cmdline
  one_ahead : waits → s.sent ≤ s.answered + 1
  length_eq : seen.length = s.answered
  texts : ∀ k text, seen[k]? = some text → ∃ line more, requests[k]? = some line ∧
    more <+: (requests.drop (k + 1)).flatten ∧ text = line ++ more ∧ (waits → more = [])

section Reading

variable {waits : Prop} {requests : List (List UInt8)} {s : Link} {seen : List (List UInt8)}

theorem reading_linkStart (requests : List (List UInt8)) : Reading waits requests (linkStart requests) [] where
  lines := ⟨[], [], rfl, rfl, rfl, rfl⟩
  unfinished := List.not_mem_nil
  one_ahead := fun _ => Nat.zero_le 1
  length_eq := rfl
  texts := fun k text h => absurd h (by simp)

/-- What ends in a line feed and has none before it is found at the front. -/
theorem split_at_lf {front text back rest : List UInt8} (hfront : lf ∉ front) (htext : lf ∉ text)
    (h : front ++ lf :: back = text ++ lf :: rest) : front = text ∧ back = rest := by
  have htake : ∀ {xs : List UInt8}, lf ∉ xs → ∀ ys, (xs ++ lf :: ys).takeWhile (· ≠ lf) = xs := by
    intro xs hxs ys
    have hall : ∀ c ∈ xs, decide (c ≠ lf) = true := by
      intro c hc
      rw [decide_eq_true_eq]
      rintro rfl
      exact hxs hc
    rw [List.takeWhile_append_of_pos hall, List.takeWhile_cons_of_neg (by decide), List.append_nil]
  have hsame : front = text := by
    rw [← htake hfront back, h, htake htext rest]
  subst hsame
  exact ⟨rfl, (List.cons.inj (List.append_cancel_left h)).2⟩

/-- What is read of a line fits into the buffer, as long as there is more to read. -/
theorem Reading.length_cmdline (h : Reading waits requests s seen) (hlines : ∀ line ∈ requests, IsLine line)
    (hpending : s.pending ≠ []) : s.cmdline.length < maxCommandLine := by
  obtain ⟨handled, waiting, hrequests, hflatten, -, -⟩ := h.lines
  cases waiting with
  | nil => exact absurd (List.append_eq_nil_iff.mp hflatten).2 hpending
  | cons line waiting =>
      obtain ⟨text, rfl, -, hlen⟩ := hlines line (by rw [hrequests]; simp)
      rw [List.flatten_cons, List.append_assoc, List.singleton_append] at hflatten
      rw [List.length_append, List.length_singleton] at hlen
      by_contra hlong
      rcases List.append_eq_append_iff.mp hflatten with ⟨more, htext, -⟩ | ⟨more, hcmdline, hrest⟩
      · have hlength := congrArg List.length htext
        rw [List.length_append] at hlength
        omega
      · cases more with
        | nil =>
            rw [List.append_nil] at hcmdline
            rw [hcmdline] at hlong
            omega
        | cons c more =>
            obtain ⟨rfl, -⟩ := List.cons.inj hrest
            refine h.unfinished ?_
            rw [hcmdline]
            exact List.mem_append_right _ List.mem_cons_self

theorem Reading.send (h : Reading waits requests s seen) (hwaits : waits → s.answered = s.sent) :
    Reading waits requests (linkStep s .send).1 seen := by
  obtain ⟨handled, waiting, hrequests, hflatten, hhandled, hsent⟩ := h.lines
  rw [linkStep]
  split
  · exact h
  · next request rest htoSend =>
      refine ⟨⟨handled, waiting ++ [request], ?_, ?_, hhandled, ?_⟩, h.unfinished, fun hw => ?_, h.length_eq, h.texts⟩
      · rw [hrequests, htoSend]
        simp
      · dsimp only
        rw [← List.append_assoc, hflatten, List.flatten_append, List.flatten_singleton]
      · rw [List.length_append, List.length_singleton, ← Nat.add_assoc, hsent]
      · have heq := hwaits hw
        dsimp only
        omega

/-- A line feed among what is looked at: the first line that waits has been read. -/
theorem Reading.line (h : Reading waits requests s seen) (hlines : ∀ line ∈ requests, IsLine line) {arrived : Nat}
    (hlf : lf ∈ s.peeked arrived) :
    ∃ handled line waiting more, requests = handled ++ line :: waiting ++ s.toSend ∧ handled.length = s.answered ∧
      s.answered + (waiting.length + 1) = s.sent ∧ s.cmdline ++ s.peeked arrived = line ++ more ∧
      more <+: waiting.flatten ∧
      s.pending.drop (((s.peeked arrived).takeWhile (· ≠ lf)).length + 1) = waiting.flatten := by
  obtain ⟨handled, waiting, hrequests, hflatten, hhandled, hsent⟩ := h.lines
  obtain ⟨front, more, hpeeked, hfront⟩ := List.eq_append_cons_of_mem hlf
  obtain ⟨back, hpending⟩ : ∃ back, s.pending = front ++ lf :: more ++ back := by
    refine ⟨s.pending.drop (min arrived (maxCommandLine - s.cmdline.length)), ?_⟩
    rw [← hpeeked, Link.peeked, List.take_append_drop]
  have hall : ∀ c ∈ front, decide (c ≠ lf) = true := by
    intro c hc
    rw [decide_eq_true_eq]
    rintro rfl
    exact hfront hc
  have htake : (s.peeked arrived).takeWhile (· ≠ lf) = front := by
    rw [hpeeked, List.takeWhile_append_of_pos hall, List.takeWhile_cons_of_neg (by decide), List.append_nil]
  cases waiting with
  | nil =>
      rw [hpending, List.flatten_nil] at hflatten
      simp at hflatten
  | cons line waiting =>
      obtain ⟨text, rfl, htext, -⟩ := hlines line (by rw [hrequests]; simp)
      have hboth : (s.cmdline ++ front) ++ lf :: (more ++ back) = text ++ lf :: waiting.flatten := by
        rw [List.flatten_cons, hpending] at hflatten
        simpa only [List.append_assoc, List.cons_append, List.nil_append] using hflatten
      have hnot : lf ∉ s.cmdline ++ front := fun hmem =>
        (List.mem_append.mp hmem).elim h.unfinished hfront
      obtain ⟨rfl, hrest⟩ := split_at_lf hnot htext hboth
      refine ⟨handled, s.cmdline ++ front ++ [lf], waiting, more, by simpa using hrequests, hhandled, by
        simpa using hsent, ?_, ⟨back, hrest⟩, ?_⟩
      · rw [hpeeked]
        simp
      · rw [htake, hpending, ← hrest]
        simp [List.drop_append]

theorem Reading.peek (h : Reading waits requests s seen) (hlines : ∀ line ∈ requests, IsLine line) (arrived : Nat)
    (returns : Bool) :
    Reading waits requests (linkStep s (.peek arrived returns)).1 (seen ++ (linkStep s (.peek arrived returns)).2) := by
  rw [linkStep]
  split_ifs with hblocks hfull hlf
  · rw [List.append_nil]
    exact h
  · rw [not_or, not_or] at hblocks
    exact absurd (h.length_cmdline hlines hblocks.2.1) (not_lt.mpr hfull)
  · obtain ⟨handled, line, waiting, more, hrequests, hhandled, hsent, htext, hmore, hdrop⟩ := h.line hlines hlf
    have hat : requests[s.answered]? = some line := by
      rw [hrequests, ← hhandled, List.append_assoc, List.getElem?_append_right (Nat.le_refl _), Nat.sub_self]
      rfl
    have hafter : (requests.drop (s.answered + 1)).flatten = waiting.flatten ++ s.toSend.flatten := by
      rw [hrequests, ← hhandled, List.append_assoc, List.cons_append, List.drop_length_add_append, List.drop_succ_cons,
        List.drop_zero, List.flatten_append]
    refine ⟨⟨handled ++ [line], waiting, by simpa using hrequests, ?_, ?_, ?_⟩, List.not_mem_nil, fun hw => ?_, ?_,
      fun k text hk => ?_⟩
    · exact hdrop
    · rw [List.length_append, List.length_singleton, hhandled]
    · dsimp only
      omega
    · have hone := h.one_ahead hw
      dsimp only
      omega
    · rw [List.length_append, List.length_singleton, h.length_eq]
    · rcases Nat.lt_trichotomy k seen.length with hlt | heq | hgt
      · rw [List.getElem?_append_left hlt] at hk
        exact h.texts k text hk
      · rw [heq, List.getElem?_append_right (Nat.le_refl _), Nat.sub_self] at hk
        obtain rfl := Option.some.inj hk
        rw [heq, h.length_eq]
        refine ⟨line, more, hat, ?_, htext, fun hw => ?_⟩
        · rw [hafter]
          exact hmore.trans (List.prefix_append _ _)
        -- no other line has been sent
        · have hone := h.one_ahead hw
          have hnone : waiting = [] := List.length_eq_zero_iff.mp (by omega)
          rw [hnone] at hmore
          exact List.prefix_nil.mp hmore
      · rw [List.getElem?_eq_none (by rw [List.length_append, List.length_singleton]; omega)] at hk
        exact absurd hk (Option.some_ne_none text).symm
  · rw [List.append_nil]
    obtain ⟨handled, waiting, hrequests, hflatten, hhandled, hsent⟩ := h.lines
    refine ⟨⟨handled, waiting, hrequests, ?_, hhandled, hsent⟩, fun hmem => ?_, h.one_ahead, h.length_eq, h.texts⟩
    · obtain ⟨rest, hrest⟩ : s.peeked arrived <+: s.pending := List.take_prefix _ _
      have hdrop : s.pending.drop (s.peeked arrived).length = rest := by
        rw [← hrest, List.drop_left]
      dsimp only
      rw [hdrop, List.append_assoc, hrest, hflatten]
    · exact (List.mem_append.mp hmem).elim h.unfinished hlf

theorem Reading.ends (h : Reading waits requests s seen) (ended : Option LinkEnd) :
    Reading waits requests { s with ended := ended } seen :=
  ⟨h.lines, h.unfinished, h.one_ahead, h.length_eq, h.texts⟩

theorem Reading.step (hlines : ∀ line ∈ requests, IsLine line) (h : Reading waits requests s seen) (event : LinkEvent)
    (hwaits : waits → WaitsForReply s event) :
    Reading waits requests (linkStep s event).1 (seen ++ (linkStep s event).2) := by
  cases event with
  | send =>
      have hnone : (linkStep s .send).2 = [] := by
        rw [linkStep]
        split <;> rfl
      rw [hnone, List.append_nil]
      exact h.send fun hw => hwaits hw rfl
  | peek arrived returns => exact h.peek hlines arrived returns
  | closed | alarm =>
      rw [linkStep, List.append_nil]
      exact h.ends _

/-- A run of a client that waits, or of any client. -/
theorem reading_run (waits : Prop) (hlines : ∀ line ∈ requests, IsLine line) (events : List LinkEvent)
    (hwaits : waits → Along linkStep WaitsForReply (linkStart requests) events) :
    Reading waits requests (runSteps linkStep (linkStart requests) events).1
      (runSteps linkStep (linkStart requests) events).2 := by
  have hcond : Along linkStep (fun s event => waits → WaitsForReply s event) (linkStart requests) events := by
    by_cases hw : waits
    · exact along_mono linkStep (fun _ _ hwait _ => hwait) _ _ (hwaits hw)
    · exact @along_of_invariant _ _ _ linkStep _ (fun _ => True) (fun _ _ _ => trivial)
        (fun _ _ _ hw' => absurd hw' hw) _ _ trivial
  have hstep : ∀ s seen event, Reading waits requests s seen → (waits → WaitsForReply s event) →
      Reading waits requests (linkStep s event).1 (seen ++ (linkStep s event).2) :=
    fun _ _ event h hwait => h.step hlines event hwait
  have hrun := runSteps_history_along hstep events (reading_linkStart requests) hcond
  rwa [List.nil_append] at hrun

/-- One step ends a session for one of the causes. -/
theorem Reading.cause (h : Reading waits requests s seen) (hlines : ∀ line ∈ requests, IsLine line)
    (event : LinkEvent) {reason : LinkEnd} (hended : (linkStep s event).1.ended = some reason) :
    s.ended = some reason ∨ reason.Cause [event] (linkStep s event).2 := by
  cases event with
  | send =>
      have hsame : (linkStep s .send).1.ended = s.ended := by
        rw [linkStep]
        split <;> rfl
      exact Or.inl (hsame ▸ hended)
  | peek arrived returns =>
      rw [linkStep] at hended ⊢
      split_ifs at hended ⊢ with hblocks hfull hlf
      · exact Or.inl hended
      · rw [not_or, not_or] at hblocks
        exact absurd (h.length_cmdline hlines hblocks.2.1) (not_lt.mpr hfull)
      · right
        dsimp only [endOf] at hended
        split_ifs at hended with hquit hreturns
        · obtain rfl := Option.some.inj hended
          exact ⟨_, List.mem_singleton_self _, hquit⟩
        · obtain rfl := Option.some.inj hended
          rw [Bool.not_eq_true] at hreturns
          subst hreturns
          exact ⟨arrived, List.mem_singleton_self _⟩
      · exact Or.inl hended
  | closed | alarm =>
      rcases Option.or_eq_some_iff.mp hended with hbefore | ⟨-, hnow⟩
      · exact Or.inl hbefore
      · obtain rfl := Option.some.inj hnow
        exact Or.inr (List.mem_singleton_self _)

theorem LinkEnd.Cause.mono {reason : LinkEnd} {events events' : List LinkEvent} {seen seen' : List (List UInt8)}
    (h : reason.Cause events seen) (hevents : events ⊆ events') (hseen : seen ⊆ seen') :
    reason.Cause events' seen' := by
  cases reason with
  | quit =>
      obtain ⟨text, htext, hquit⟩ := h
      exact ⟨text, hseen htext, hquit⟩
  | closed => exact hevents h
  | timeout => exact hevents h
  | full => exact h
  | left =>
      obtain ⟨arrived, hmem⟩ := h
      exact ⟨arrived, hevents hmem⟩

/-- Whatever happens, what ends a session is one of the causes. -/
theorem cause_of_run (hlines : ∀ line ∈ requests, IsLine line) (events : List LinkEvent) {reason : LinkEnd}
    (hended : (runSteps linkStep (linkStart requests) events).1.ended = some reason) :
    reason.Cause events (runSteps linkStep (linkStart requests) events).2 := by
  induction events using List.reverseRecOn with
  | nil => exact absurd hended (Option.some_ne_none reason).symm
  | append_singleton events event ih =>
      rw [runSteps_append, runSteps_singleton] at hended ⊢
      have hreading := reading_run False hlines events False.elim
      rcases hreading.cause hlines event hended with hbefore | hnow
      · exact (ih hbefore).mono (List.subset_append_left _ _) (List.subset_append_left _ _)
      · exact hnow.mono (List.subset_append_right _ _) (List.subset_append_right _ _)

/-- When all has been read, all has been handled. -/
theorem Reading.all (h : Reading waits requests s seen) (hlines : ∀ line ∈ requests, IsLine line)
    (htoSend : s.toSend = []) (hpending : s.pending = []) : s.answered = requests.length := by
  obtain ⟨handled, waiting, hrequests, hflatten, hhandled, -⟩ := h.lines
  cases waiting with
  | nil => rw [hrequests, htoSend, List.append_nil, List.append_nil, hhandled]
  | cons line waiting =>
      obtain ⟨text, rfl, -, -⟩ := hlines line (by rw [hrequests]; simp)
      rw [hpending, List.append_nil] at hflatten
      refine absurd ?_ h.unfinished
      rw [hflatten]
      simp

/-- Texts that are one line each are the lines. -/
theorem texts_eq {requests seen : List (List UInt8)} {answered : Nat} (hlength : seen.length = answered)
    (htexts : ∀ (k : Nat) text, seen[k]? = some text → requests[k]? = some text) : seen = requests.take answered := by
  refine List.ext_getElem? fun k => ?_
  rw [List.getElem?_take]
  by_cases hk : k < answered
  · obtain ⟨text, htext⟩ : ∃ text, seen[k]? = some text := ⟨_, List.getElem?_eq_getElem (by omega)⟩
    rw [if_pos hk, htext, htexts k text htext]
  · rw [if_neg hk, List.getElem?_eq_none (by omega)]

end Reading

/-- **What a session makes of the lines of a client**, however they are sent, arrive and are read: every line is taken
once, in order, and handled together with some of what was sent after it; if the client waits for its replies, the
commands are those of the lines. The session ends by `QUIT`, with the connection, by the alarm of an idle session or in
a handler that does not return, and otherwise handles all that it reads. -/
theorem link_handles (requests : List (List UInt8)) (hlines : ∀ line ∈ requests, IsLine line)
    (events : List LinkEvent) :
    let r := runSteps linkStep (linkStart requests) events
    r.2.length = r.1.answered ∧
      (∀ k text, r.2[k]? = some text → ∃ line more, requests[k]? = some line ∧
        more <+: (requests.drop (k + 1)).flatten ∧ text = line ++ more) ∧
      (Along linkStep WaitsForReply (linkStart requests) events →
        r.2.map handleLine = (requests.take r.1.answered).map commandOf) ∧
      (∀ reason, r.1.ended = some reason → reason.Cause events r.2) ∧
      (r.1.toSend = [] → r.1.pending = [] → r.1.answered = requests.length) := by
  intro r
  have hany := reading_run False hlines events False.elim
  refine ⟨hany.length_eq, fun k text hk => ?_, fun hwaits => ?_, fun _ => cause_of_run hlines events, hany.all hlines⟩
  · obtain ⟨line, more, hline, hmore, htext, -⟩ := hany.texts k text hk
    exact ⟨line, more, hline, hmore, htext⟩
  · have hwaiting := reading_run True hlines events fun _ => hwaits
    have hsame : r.2 = requests.take r.1.answered := texts_eq hwaiting.length_eq fun k text hk => by
      obtain ⟨line, more, hline, -, rfl, hnone⟩ := hwaiting.texts k text hk
      rw [hnone trivial, List.append_nil]
      exact hline
    rw [hsame]
    exact List.map_congr_left fun line _ => handleLine_eq line

/-- Two commands of a client. -/
def twoRequests : List (List UInt8) := [textOf "CWD a\r\n", textOf "PWD\r\n"]

/-- The lines arrive in pieces, and the second is sent when the first has been handled. -/
def inPieces : List LinkEvent :=
  [.send, .peek 3 true, .peek 9 true, .send, .peek 1 true, .peek 9 true, .alarm, .closed]

theorem link_handles_twoRequests :
    let r := runSteps linkStep (linkStart twoRequests) inPieces
    r.2.map handleLine = [.func .doCwd (textOf "a"), .func .doPwd []] ∧ r.1.ended = some .timeout := by
  intro r
  have hlines : ∀ line ∈ twoRequests, IsLine line := by
    intro line hline
    rcases List.mem_cons.mp hline with rfl | hline
    · exact ⟨textOf "CWD a\r", by decide, by decide, by decide⟩
    · rw [List.mem_singleton.mp hline]
      exact ⟨textOf "PWD\r", by decide, by decide, by decide⟩
  refine ⟨?_, by decide⟩
  rw [(link_handles twoRequests hlines inPieces).2.2.1 (by decide)]
  decide

/-- Where both lines have arrived when the first is read, the first is not understood. -/
example : (runSteps linkStep (linkStart twoRequests) [.send, .send, .peek 99 true, .peek 99 true]).2.map handleLine =
    [.func .doCwd (textOf "a\r\nPWD"), .func .doPwd []] := by decide

end QLog.Ftpd
