import QLog.Diag.RoundTrip
import QLog.Unisoc.LogChannel

/-! # The Unisoc log file

Both channels of a Unisoc module are saved to one file as records, a length of four bytes and then the data.
The packets of the log channel come from `unisoc_proc_log_buf`; those of the diag channel come from the deframer
through `HandleDiagPkt`, which filters some out and puts the length of the others into their header. -/

namespace QLog

open Library

/-! ## The diag channel -/

/-- The length that bytes 5 and 6 of a frame announce is its size, less the two delimiters. -/
def announcesSize (buf : List UInt8) : Bool :=
  (buf.getD 5 0).toNat + (buf.getD 6 0).toNat * 2 ^ 8 + 2 == buf.length

/-- The frames that `HandleDiagPkt` keeps out of the file: answers to its own queries and AT commands. -/
def filteredOut (buf : List UInt8) : Bool :=
  if buf.getD 0 0 ≠ 0x7E then window buf 0 5 == [0x30, 0x0D, 0x0A, 0x7E, 0x5E]
  else
    window buf 5 8 == [0x19, 0x00, 0x0B]
      || window buf 1 5 == [0x5E, 0x40, 0x5E, 0x40]
      || window buf 1 8 == [0x00, 0x00, 0x00, 0x00, 0x00, 0xFF, 0x00]
      || (window buf 0 5 == [0x7E, 0x54, 0xAF, 0x26, 0x6F] || window buf 0 5 == [0x7E, 0x54, 0xAF, 0x00, 0x00])
        && announcesSize buf
      || (window buf 0 5 == [0x7E, 0x00, 0x00, 0x00, 0x00] && window buf 7 9 == [0x9C, 0x00])
        && announcesSize buf

/-- `HandleDiagPkt`: nothing for a frame that is filtered out, otherwise the frame with `header.len` corrected. -/
def handleDiagPkt (buf : List UInt8) : Option (List UInt8) :=
  if filteredOut buf then none
  else if ofLeBytes (window buf 5 7) ≠ buf.length - 2 then
    some (overwrite buf 5 (leBytes 2 (buf.length - 2)))
  else some buf

/-- `unisoc_handle_diag_pkt_func`: the frame lies behind the eight bytes `reserved`, whose end is overwritten. -/
def unisocHandleDiagPktFunc (buf : List UInt8) : List (List UInt8) :=
  match handleDiagPkt buf with
  | none => []
  | some buf => (writeDataToFile (List.replicate 8 0 ++ buf) (8 + 1) (buf.length - 2) 8).2

/-- `unisoc_proc_diag_buf` -/
def unisocProcDiagBuf (p : DiagPkt) (inBuf : List UInt8) : DiagPkt × List (List UInt8) :=
  if inBuf = [] then (p, [])
  else ((diagPktInput p inBuf).1, (packets (diagPktInput p inBuf).2).flatMap unisocHandleDiagPktFunc)

/-- A payload with the length field of its `DIAG_HEADER` set to its length. -/
def withDiagLen (payload : List UInt8) : List UInt8 := overwrite payload 4 (leBytes 2 payload.length)

/-- The frame as the deframer delivers it. -/
def delivered (payload : List UInt8) : List UInt8 := [0x7E] ++ payload ++ [0x7E]

theorem length_delivered (payload : List UInt8) : (delivered payload).length = payload.length + 2 := by
  simp [delivered]

/-- A frame that is not filtered out keeps its payload, but for the corrected length. -/
theorem handleDiagPkt_delivered {payload : List UInt8} (hmin : 8 ≤ payload.length)
    (hkeep : filteredOut (delivered payload) = false) :
    handleDiagPkt (delivered payload) = some (delivered (withDiagLen payload)) := by
  have hsize : (delivered payload).length - 2 = payload.length := by
    rw [length_delivered, Nat.add_sub_cancel]
  have hlen : window (delivered payload) 5 7 = window payload 4 6 :=
    window_middle [0x7E] payload [0x7E] 4 (show 6 ≤ payload.length by omega)
  rw [handleDiagPkt, if_neg (by rw [hkeep]; decide), hsize, hlen]
  by_cases hright : ofLeBytes (window payload 4 6) = payload.length
  · -- the field is right already, and writing it again would change nothing
    have htwo : (window payload 4 6).length = 2 := length_window payload (by omega)
    have hbytes : leBytes 2 payload.length = window payload 4 6 := by
      rw [← hright, ← htwo, leBytes_ofLeBytes]
    rw [if_neg (not_not.mpr hright), withDiagLen, hbytes,
      overwrite_window_self payload (by decide) (by omega)]
  · have hfit : 4 + (leBytes 2 payload.length).length ≤ payload.length := by
      rw [length_leBytes]
      omega
    rw [if_pos hright]
    exact congrArg some (overwrite_middle [0x7E] payload [0x7E] (leBytes 2 payload.length) hfit)

/-- The record of a frame that is not filtered out. -/
theorem unisocHandleDiagPktFunc_delivered {payload : List UInt8} (hmin : 8 ≤ payload.length)
    (hmax : payload.length ≤ 0x4008) (hkeep : filteredOut (delivered payload) = false) :
    unisocHandleDiagPktFunc (delivered payload) = [logRecord (withDiagLen payload)] := by
  have hsize : (delivered (withDiagLen payload)).length - 2 = (withDiagLen payload).length := by
    rw [length_delivered, Nat.add_sub_cancel]
  set fixed := withDiagLen payload with hfixed
  -- `reserved` and the leading delimiter make up the nine bytes before the payload
  have hmem : List.replicate 8 (0 : UInt8) ++ delivered fixed
      = (List.replicate 8 0 ++ [0x7E]) ++ fixed ++ [0x7E] := by
    simp only [delivered, List.append_assoc]
  have hdata : window (List.replicate 8 (0 : UInt8) ++ delivered fixed) 9 (9 + fixed.length) = fixed := by
    rw [hmem]
    refine (window_middle (List.replicate 8 (0 : UInt8) ++ [0x7E]) fixed [0x7E] 0
      (Nat.le_refl fixed.length)).trans ?_
    rw [window_zero, List.take_length]
  have hend : 8 + 1 + fixed.length ≤ (List.replicate 8 (0 : UInt8) ++ delivered fixed).length := by
    rw [List.length_append, List.length_replicate, length_delivered]
    omega
  rw [unisocHandleDiagPktFunc, handleDiagPkt_delivered hmin hkeep]
  show (writeDataToFile (List.replicate 8 0 ++ delivered fixed) (8 + 1) ((delivered fixed).length - 2) 8).2 = _
  have hlen : fixed.length = payload.length := by
    rw [hfixed, withDiagLen, length_overwrite _ _ (by rw [length_leBytes]; omega)]
  rw [hsize, writeDataToFile_saved (by decide) hend (by decide) (by omega), hdata, logRecord]

/-- The channel hands the frames of the deframer on, one by one. -/
theorem runSteps_unisocProcDiagBuf (p : DiagPkt) (chunks : List (List UInt8)) :
    runSteps unisocProcDiagBuf p chunks
      = ((feed p (chunks.filter (· ≠ []))).1,
        (feed p (chunks.filter (· ≠ []))).2.flatMap unisocHandleDiagPktFunc) := by
  induction chunks generalizing p with
  | nil => rfl
  | cons c chunks ih =>
      rw [runSteps_cons, ih]
      by_cases hc : c = []
      · rw [unisocProcDiagBuf, if_pos hc, List.filter_cons_of_neg (by simpa using hc)]
        rfl
      · rw [unisocProcDiagBuf, if_neg hc, List.filter_cons_of_pos (by simpa using hc)]
        simp only [feed, runSteps_cons, prepend, packets_append, List.flatMap_append]

/-- A payload of the diag channel that reaches the file. -/
structure DiagPayload where
  bytes : List UInt8
  min_le : 8 ≤ bytes.length
  le_max : bytes.length ≤ 0x4008
  kept : filteredOut (delivered bytes) = false

/-- **The diag channel**: frames cut into chunks in any way are saved as one record each, in order. -/
theorem runSteps_unisocProcDiagBuf_frames (chunks : List (List UInt8)) (payloads : List DiagPayload)
    (hstream : chunks.flatten = payloads.flatMap fun d => unisocFrame d.bytes) :
    (runSteps unisocProcDiagBuf unisocDiagPkt chunks).2
      = payloads.map fun d => logRecord (withDiagLen d.bytes) := by
  have hok : ∀ payload ∈ payloads.map DiagPayload.bytes, UnisocPayload payload := by
    intro payload hpay
    obtain ⟨d, -, rfl⟩ := List.mem_map.mp hpay
    exact ⟨d.min_le, Nat.le_trans d.le_max (by decide)⟩
  have hdecodes := decodes_unisocFrames unisocDiagPkt_clean ⟨rfl, rfl, rfl⟩
    (payloads.map DiagPayload.bytes) hok
  have hflat : (chunks.filter (· ≠ [])).flatten = (payloads.map DiagPayload.bytes).flatMap unisocFrame := by
    rw [List.flatMap_map, ← hstream]
    exact List.flatten_filter_ne_nil
  rw [← hflat] at hdecodes
  have hfeed := (hdecodes.mono fun _ _ hx => hx.1).feed_eq (by simp)
  rw [runSteps_unisocProcDiagBuf, hfeed]
  show ((payloads.map DiagPayload.bytes).map delivered).flatMap unisocHandleDiagPktFunc = _
  rw [List.map_map, List.flatMap_map]
  have hone : ∀ d ∈ payloads, unisocHandleDiagPktFunc (delivered d.bytes)
      = [logRecord (withDiagLen d.bytes)] := fun d _ =>
    unisocHandleDiagPktFunc_delivered d.min_le d.le_max d.kept
  exact (List.flatMap_congr hone).trans List.map_eq_flatMap.symm

/-! ## Both channels in one file -/

/-- `g_unisoc_log_type`, which is only ever 0 (diag) or 1 (log). -/
inductive UnisocLogType
  | diag
  | log
  deriving DecidableEq, Repr

/-- The state of both parsers. -/
structure Unisoc where
  logBuf : List UInt8
  diagPkt : DiagPkt

/-- Nothing read yet. -/
def unisocStart : Unisoc := ⟨[], unisocDiagPkt⟩

/-- `unisoc_logfile_save`, with the channel each saved buffer comes from. -/
def unisocLogfileSave (u : Unisoc) (call : UnisocLogType × List UInt8) :
    Unisoc × List (UnisocLogType × List UInt8) :=
  match call.1 with
  | .log =>
      ({ u with logBuf := (unisocLogSave u.logBuf call.2).1 },
        (unisocLogSave u.logBuf call.2).2.map (UnisocLogType.log, ·))
  | .diag =>
      ({ u with diagPkt := (unisocProcDiagBuf u.diagPkt call.2).1 },
        (unisocProcDiagBuf u.diagPkt call.2).2.map (UnisocLogType.diag, ·))

/-- What belongs to one channel. -/
def ofChannel (type : UnisocLogType) (x : UnisocLogType × List UInt8) : Option (List UInt8) :=
  if x.1 = type then some x.2 else none

theorem filterMap_ofChannel_map_self (type : UnisocLogType) (xs : List (List UInt8)) :
    (xs.map (type, ·)).filterMap (ofChannel type) = xs := by
  rw [List.filterMap_map]
  refine (List.filterMap_congr fun x _ => ?_).trans List.filterMap_some
  exact if_pos rfl

theorem filterMap_ofChannel_map_of_ne {type other : UnisocLogType} (hne : other ≠ type)
    (xs : List (List UInt8)) : (xs.map (other, ·)).filterMap (ofChannel type) = [] := by
  rw [List.filterMap_map, List.filterMap_eq_nil_iff]
  intro x _
  exact if_neg hne

/-- The log channel does not see the diag channel. -/
theorem projects_log :
    Projects unisocLogfileSave unisocLogSave Unisoc.logBuf (ofChannel .log) (ofChannel .log) := by
  constructor
  · rintro u ⟨type, buf⟩ c hc
    cases type with
    | diag => exact absurd hc (by simp [ofChannel])
    | log =>
        obtain rfl : buf = c := Option.some.inj hc
        exact ⟨rfl, filterMap_ofChannel_map_self .log _⟩
  · rintro u ⟨type, buf⟩ hc
    cases type with
    | diag => exact ⟨rfl, filterMap_ofChannel_map_of_ne (by decide) _⟩
    | log => exact absurd hc (by simp [ofChannel])

/-- Nor does the diag channel see the log channel. -/
theorem projects_diag :
    Projects unisocLogfileSave unisocProcDiagBuf Unisoc.diagPkt (ofChannel .diag) (ofChannel .diag) := by
  constructor
  · rintro u ⟨type, buf⟩ c hc
    cases type with
    | diag =>
        obtain rfl : buf = c := Option.some.inj hc
        exact ⟨rfl, filterMap_ofChannel_map_self .diag _⟩
    | log => exact absurd hc (by simp [ofChannel])
  · rintro u ⟨type, buf⟩ hc
    cases type with
    | diag => exact absurd hc (by simp [ofChannel])
    | log => exact ⟨rfl, filterMap_ofChannel_map_of_ne (by decide) _⟩

theorem drop_logRecord (data : List UInt8) : (logRecord data).drop 4 = data := by
  rw [logRecord]
  exact List.drop_left' (length_leBytes 4 data.length)

/-- Saved buffers that are records, channel by channel, are records of one list. -/
theorem exists_records {saved : List (UnisocLogType × List UInt8)} {logs diags : List (List UInt8)}
    (hlog : saved.filterMap (ofChannel .log) = logs.map logRecord)
    (hdiag : saved.filterMap (ofChannel .diag) = diags.map logRecord) :
    ∃ records : List (UnisocLogType × List UInt8),
      saved = records.map (fun r => (r.1, logRecord r.2)) ∧
        records.filterMap (ofChannel .log) = logs ∧ records.filterMap (ofChannel .diag) = diags := by
  have hrecord : ∀ x ∈ saved, ∃ data, x.2 = logRecord data := by
    rintro ⟨type, buf⟩ hx
    have hmem : buf ∈ saved.filterMap (ofChannel type) := List.mem_filterMap.mpr ⟨_, hx, if_pos rfl⟩
    cases type with
    | log =>
        rw [hlog] at hmem
        obtain ⟨data, -, hdata⟩ := List.mem_map.mp hmem
        exact ⟨data, hdata.symm⟩
    | diag =>
        rw [hdiag] at hmem
        obtain ⟨data, -, hdata⟩ := List.mem_map.mp hmem
        exact ⟨data, hdata.symm⟩
  -- the data of a channel's records are its records without their lengths
  have hchannel : ∀ type (data : List (List UInt8)), saved.filterMap (ofChannel type) = data.map logRecord →
      (saved.map fun x => (x.1, x.2.drop 4)).filterMap (ofChannel type) = data := by
    intro type data hdata
    have hdrop : (saved.map fun x => (x.1, x.2.drop 4)).filterMap (ofChannel type)
        = (saved.filterMap (ofChannel type)).map (List.drop 4) := by
      rw [List.filterMap_map, List.map_filterMap]
      refine List.filterMap_congr fun x _ => ?_
      show ofChannel type (x.1, x.2.drop 4) = (ofChannel type x).map (List.drop 4)
      unfold ofChannel
      split <;> rfl
    rw [hdrop, hdata, List.map_map]
    exact (List.map_congr_left fun d _ => drop_logRecord d).trans (List.map_id data)
  refine ⟨saved.map fun x => (x.1, x.2.drop 4), ?_, hchannel .log logs hlog, hchannel .diag diags hdiag⟩
  rw [List.map_map]
  refine (List.map_id saved).symm.trans (List.map_congr_left fun x hx => ?_)
  obtain ⟨data, hdata⟩ := hrecord x hx
  show x = (x.1, logRecord (x.2.drop 4))
  rw [hdata, drop_logRecord, ← hdata]

/-- **The file holds both channels without loss**: for any calls of `unisoc_logfile_save` whose chunks make up whole
SMP packets on the log channel and whole frames on the diag channel, the bytes saved are records; those of the log
channel are the data of the packets in order, and those of the diag channel the payloads in order with their length
field set. -/
theorem unisocLogfileSave_both_channels (calls : List (UnisocLogType × List UInt8)) (ps : List SmpPacket)
    (payloads : List DiagPayload)
    (hlog : (calls.filterMap (ofChannel .log)).flatten = ps.flatMap SmpPacket.bytes)
    (hdiag : (calls.filterMap (ofChannel .diag)).flatten
      = payloads.flatMap fun d => [0x7E] ++ stuff d.bytes ++ [0x7E]) :
    ∃ records : List (UnisocLogType × List UInt8),
      (runSteps unisocLogfileSave unisocStart calls).2.flatMap Prod.snd
          = records.flatMap (fun r => leBytes 4 r.2.length ++ r.2) ∧
        (runSteps unisocLogfileSave unisocStart calls).2.map Prod.fst = records.map Prod.fst ∧
        records.filterMap (ofChannel .log) = ps.map SmpPacket.data ∧
        records.filterMap (ofChannel .diag) = payloads.map fun d => withDiagLen d.bytes := by
  have hlogs := (projects_log.runSteps unisocStart calls).2
  have hdiags := (projects_diag.runSteps unisocStart calls).2
  rw [show unisocStart.logBuf = [] from rfl, runSteps_unisocLogSave _ ps hlog] at hlogs
  rw [show unisocStart.diagPkt = unisocDiagPkt from rfl,
    runSteps_unisocProcDiagBuf_frames _ payloads hdiag] at hdiags
  obtain ⟨records, hsaved, hrlog, hrdiag⟩ := exists_records
    (hlogs.trans (List.map_map (f := SmpPacket.data) (g := logRecord)).symm)
    (hdiags.trans (List.map_map (f := fun d : DiagPayload => withDiagLen d.bytes) (g := logRecord)).symm)
  refine ⟨records, ?_, ?_, hrlog, hrdiag⟩
  · rw [hsaved, List.flatMap_map]
    rfl
  · rw [hsaved, List.map_map]
    rfl

/-- A packet whose data looks like the beginning of another one. -/
def flagPacket : SmpPacket where
  header := ⟨[0x0A, 0x00, 0x00, 0x00, 0x5A, 0x5A, 0x9B, 0xA5], rfl⟩
  data := [0x7E, 0x7E]
  accepted := by decide
  len := by decide
  le_max := by decide

/-- A payload whose length field is not set. -/
def shortPayload : DiagPayload where
  bytes := [0x01, 0x7D, 0x03, 0x04, 0x00, 0x00, 0x98, 0x00]
  min_le := by decide
  le_max := by decide
  kept := by decide

/-- The two, each cut inside, one within the other. -/
theorem unisocLogfileSave_both_channels_cut :
    let calls : List (UnisocLogType × List UInt8) :=
      [(.log, flagPacket.bytes.take 7), (.diag, (unisocFrame shortPayload.bytes).take 3),
        (.log, flagPacket.bytes.drop 7), (.diag, (unisocFrame shortPayload.bytes).drop 3)]
    ∃ records : List (UnisocLogType × List UInt8),
      (runSteps unisocLogfileSave unisocStart calls).2.flatMap Prod.snd
          = records.flatMap (fun r => leBytes 4 r.2.length ++ r.2) ∧
        records.filterMap (ofChannel .log) = [[0x7E, 0x7E]] ∧
        records.filterMap (ofChannel .diag) = [[0x01, 0x7D, 0x03, 0x04, 0x08, 0x00, 0x98, 0x00]] := by
  intro calls
  obtain ⟨records, hbytes, -, hlog, hdiag⟩ :=
    unisocLogfileSave_both_channels calls [flagPacket] [shortPayload] (by decide) (by decide)
  exact ⟨records, hbytes, hlog, hdiag.trans (by decide)⟩

end QLog
