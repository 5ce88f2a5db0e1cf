import QLog.Library.ByteBuffer
import QLog.Library.Scanf

/-! # The TCP server of the option `-s`

`parser_tcp` is given the argument of every option `-s`, most of which are the names of directories. A number from 9000
on makes a TCP server of the program, and an address with a port, in either order, a TCP client. `sscanf` stores the
port on its way: where the port comes first, it is changed also by a string that is no address. -/

namespace QLog.Options

open Library

/-- `g_tcp_server_port`, `g_tcp_client_port` and `g_tcp_client_ip`. -/
structure TcpGlobals where
  serverPort : Int
  clientPort : Int
  clientIp : List UInt8

/-- As they are initialised. -/
def tcpGlobals : TcpGlobals := ⟨0, 0, List.replicate 16 0⟩

/-- `is_tcp_client` -/
def TcpGlobals.isTcpClient (s : TcpGlobals) : Bool := decide (0 < s.clientPort)

/-- The number is taken for the port of a server. -/
def IsServerPort (str : List UInt8) : Prop := str.headD 0 = 0x39 ∧ 9000 ≤ atoi str

instance (str : List UInt8) : Decidable (IsServerPort str) := inferInstanceAs (Decidable (_ ∧ _))

/-- What stands between the numbers of `%d.%d.%d.%d:%d`. -/
def ipPort : List UInt8 := [0x2e, 0x2e, 0x2e, 0x3a]

/-- What stands between the numbers of `%d:%d.%d.%d.%d`. -/
def portIp : List UInt8 := [0x3a, 0x2e, 0x2e, 0x2e]

/-- `g_tcp_client_ip_tmp`, with `(uint8_t)ip[i]` in it. -/
def clientIpTmp (ip : List Int) : List UInt8 :=
  let text := dotted (ip.map (· % 256))
  text ++ List.replicate (80 - text.length) 0

/-- What is done where `rc == 5`. -/
def saveClientIp (rc : Nat) (clientIp : List UInt8) (ip : List Int) : List UInt8 :=
  if rc = 5 then overwrite clientIp 0 ((clientIpTmp ip).take 15) else clientIp

/-- `parser_tcp` -/
def parserTcp (s : TcpGlobals) (str : List UInt8) : TcpGlobals :=
  if IsServerPort str then { s with serverPort := atoi str }
  else
    match strstr str [0x3a], strstr str [0x2e] with
    | some colon, some dot =>
        if dot < colon then
          let ns := sscanf ipPort str
          { s with
            clientPort := ns[4]?.getD s.clientPort
            clientIp := saveClientIp ns.length s.clientIp (ns.take 4) }
        else
          let ns := sscanf portIp str
          { s with
            clientPort := ns[0]?.getD s.clientPort
            clientIp := saveClientIp ns.length s.clientIp (ns.drop 1) }
    | _, _ => s

/-- All five numbers of an address are parsed, at the front of a string that is not the port of a server. -/
def Parsed (str : List UInt8) (ip : List Int) (port : Int) : Prop :=
  ¬ IsServerPort str ∧ ip.length = 4 ∧ (sscanf ipPort str = ip ++ [port] ∨ sscanf portIp str = port :: ip)

/-- **A failed parse changes nothing**, and a successful one leaves the address that has been parsed. -/
def FailedParseKeeps (s : TcpGlobals) (str : List UInt8) : Prop :=
  ((¬ ∃ ip port, Parsed str ip port) → (parserTcp s str).clientPort = s.clientPort ∧
    (parserTcp s str).clientIp = s.clientIp ∧ (parserTcp s str).isTcpClient = s.isTcpClient) ∧
  ∀ ip port, Parsed str ip port → cString (parserTcp s str).clientIp = dotted ip

/-- The string begins with a port and a colon in front of the first dot, as far as it is parsed, and is no address: the
port is one that is not set yet. -/
def PartialPort (s : TcpGlobals) (str : List UInt8) : Prop :=
  ¬ IsServerPort str ∧ (∃ colon dot, strstr str [0x3a] = some colon ∧ strstr str [0x2e] = some dot ∧ colon ≤ dot) ∧
    (sscanf portIp str).length < 5 ∧ ∃ port, (sscanf portIp str)[0]? = some port ∧ port ≠ s.clientPort

/-- The address that is parsed has a number that does not fit a byte. -/
def OutOfRange (str : List UInt8) : Prop := ∃ ip port, Parsed str ip port ∧ ∃ n ∈ ip, ¬ (0 ≤ n ∧ n < 256)

/-! ## The two formats -/

section Formats

variable {str : List UInt8} {ip : List Int} {port : Int}

/-- An address in front of its port has a dot in front of the first colon. -/
theorem dot_lt_colon (h : (sscanf ipPort str).length = 5) :
    ∃ colon dot, strstr str [0x3a] = some colon ∧ strstr str [0x2e] = some dot ∧ dot < colon := by
  obtain ⟨dot, colon, hdot, hcolon, hlt⟩ :=
    strstr_lt_of_sscanf 0x2e 0x3a h rfl rfl (by decide) (by simp)
  exact ⟨colon, dot, hcolon, hdot, hlt⟩

/-- An address behind its port has a colon in front of the first dot. -/
theorem colon_lt_dot (h : (sscanf portIp str).length = 5) :
    ∃ colon dot, strstr str [0x3a] = some colon ∧ strstr str [0x2e] = some dot ∧ colon < dot :=
  strstr_lt_of_sscanf 0x3a 0x2e h rfl rfl (by decide) (by simp)

/-- What is parsed has a colon and a dot, in the order that `parser_tcp` looks for. -/
theorem Parsed.order (h : Parsed str ip port) : ¬ IsServerPort str ∧ ip.length = 4 ∧
    ∃ colon dot, strstr str [0x3a] = some colon ∧ strstr str [0x2e] = some dot ∧
      (dot < colon ∧ sscanf ipPort str = ip ++ [port] ∨ colon < dot ∧ sscanf portIp str = port :: ip) := by
  obtain ⟨hserver, hip, hscan | hscan⟩ := h
  · obtain ⟨colon, dot, hcolon, hdot, hlt⟩ := dot_lt_colon (by rw [hscan]; simp [hip])
    exact ⟨hserver, hip, colon, dot, hcolon, hdot, Or.inl ⟨hlt, hscan⟩⟩
  · obtain ⟨colon, dot, hcolon, hdot, hlt⟩ := colon_lt_dot (by rw [hscan]; simp [hip])
    exact ⟨hserver, hip, colon, dot, hcolon, hdot, Or.inr ⟨hlt, hscan⟩⟩

/-- A printed byte has at most three characters. -/
theorem length_printD_byte (n : Int) : (printD (n % 256)).length ≤ 3 := by
  obtain ⟨k, hk⟩ := Int.eq_ofNat_of_zero_le (Int.emod_nonneg n (by decide : (256 : Int) ≠ 0))
  have hlt : k < 256 := by
    have := Int.emod_lt_of_pos n (by decide : (0 : Int) < 256)
    omega
  rw [hk]
  show (decimalText k).length ≤ 3
  rw [decimalText, List.length_map]
  exact (Nat.length_toDigits_le_iff (by decide) (by decide)).mpr (by omega)

/-- What is copied is the dotted form of the four bytes. -/
theorem take_clientIpTmp (hip : ip.length = 4) : ∃ zeros, (clientIpTmp ip).take 15 =
    dotted (ip.map (· % 256)) ++ List.replicate zeros 0 ∧ (dotted (ip.map (· % 256))).length + zeros = 15 := by
  obtain ⟨a, b, c, d, rfl⟩ : ∃ a b c d, ip = [a, b, c, d] := by
    match ip, hip with
    | [a, b, c, d], _ => exact ⟨a, b, c, d, rfl⟩
  have hlen : (dotted ([a, b, c, d].map (· % 256))).length ≤ 15 := by
    have ha := length_printD_byte a
    have hb := length_printD_byte b
    have hc := length_printD_byte c
    have hd := length_printD_byte d
    simp [dotted, List.intercalate, List.intersperse]
    omega
  refine ⟨15 - (dotted ([a, b, c, d].map (· % 256))).length, ?_, by omega⟩
  rw [clientIpTmp, List.take_append, List.take_of_length_le hlen, List.take_replicate]
  congr 2
  omega

theorem zero_not_mem_dotted (ns : List Int) : 0 ∉ dotted ns := by
  intro hmem
  rcases mem_dotted hmem with hnum | hdot
  · exact absurd hnum (by decide)
  · exact absurd hdot (by decide)

/-- The last byte of `g_tcp_client_ip` is the zero that nothing is copied over. -/
def Terminated (clientIp : List UInt8) : Prop := clientIp.drop 15 = [0]

theorem saveClientIp_terminated {clientIp : List UInt8} (h : Terminated clientIp) (rc : Nat) (ip : List Int)
    (hip : rc = 5 → ip.length = 4) : Terminated (saveClientIp rc clientIp ip) := by
  rw [saveClientIp]
  split
  · next hrc =>
      obtain ⟨zeros, htake, hlen⟩ := take_clientIpTmp (hip hrc)
      have h15 : ((clientIpTmp ip).take 15).length = 15 := by
        rw [htake, List.length_append, List.length_replicate, hlen]
      rw [Terminated, overwrite_zero, h15, List.drop_left' h15]
      exact h
  · exact h

/-- What is saved is the dotted form of the four bytes. -/
theorem cString_saveClientIp {clientIp : List UInt8} (h : Terminated clientIp) (hip : ip.length = 4) :
    cString (saveClientIp 5 clientIp ip) = dotted (ip.map (· % 256)) := by
  obtain ⟨zeros, htake, hlen⟩ := take_clientIpTmp hip
  have h15 : ((clientIpTmp ip).take 15).length = 15 := by
    rw [htake, List.length_append, List.length_replicate, hlen]
  rw [saveClientIp, if_pos rfl, overwrite_zero, h15, h, htake, List.append_assoc,
    cString_append_of_not_mem (zero_not_mem_dotted _)]
  cases zeros <;> simp [List.replicate_succ]

/-- The four bytes are the numbers exactly if these are bytes. -/
theorem dotted_bytes_iff (hip : ip.length = 4) :
    dotted (ip.map (· % 256)) = dotted ip ↔ ∀ n ∈ ip, 0 ≤ n ∧ n < 256 := by
  have hne : ip ≠ [] := List.ne_nil_of_length_pos (by omega)
  have hbyte : ∀ n : Int, n % 256 = n ↔ 0 ≤ n ∧ n < 256 := by
    intro n
    omega
  have hmap : ip.map (· % 256) = ip ↔ ∀ n ∈ ip, n % 256 = n := by
    simpa using List.map_inj_left (f := fun n : Int => n % 256) (g := id) (l := ip)
  constructor
  · intro h n hn
    exact (hbyte n).mp (hmap.mp (dotted_inj (by simpa using hne) hne h) n hn)
  · intro h
    rw [hmap.mpr fun n hn => (hbyte n).mpr (h n hn)]

end Formats

/-! ## One string -/

section Step

variable {s : TcpGlobals} {str : List UInt8}

theorem parserTcp_terminated (h : Terminated s.clientIp) : Terminated (parserTcp s str).clientIp := by
  rw [parserTcp]
  split
  · exact h
  · split
    · split
      · exact saveClientIp_terminated h _ _ fun hrc => by rw [List.length_take, hrc]; rfl
      · exact saveClientIp_terminated h _ _ fun hrc => by rw [List.length_drop, hrc]
    · exact h

/-- An address that is parsed is saved, with its port. -/
theorem parserTcp_of_parsed {ip : List Int} {port : Int} (h : Parsed str ip port) :
    parserTcp s str = { s with clientPort := port, clientIp := saveClientIp 5 s.clientIp ip } := by
  obtain ⟨hserver, hip, colon, dot, hcolon, hdot, hscan⟩ := h.order
  obtain ⟨a, b, c, d, rfl⟩ : ∃ a b c d, ip = [a, b, c, d] := by
    match ip, hip with
    | [a, b, c, d], _ => exact ⟨a, b, c, d, rfl⟩
  rw [parserTcp, if_neg hserver, hcolon, hdot]
  rcases hscan with ⟨hlt, hns⟩ | ⟨hlt, hns⟩
  · simp only [if_pos hlt, hns]
    rfl
  · simp only [if_neg (Nat.lt_asymm hlt), hns]
    rfl

/-- Five numbers are an address and its port. -/
theorem exists_parsed (hserver : ¬ IsServerPort str)
    (h : (sscanf ipPort str).length = 5 ∨ (sscanf portIp str).length = 5) : ∃ ip port, Parsed str ip port := by
  rcases h with h | h
  · generalize hns : sscanf ipPort str = ns at h
    match ns, h with
    | [a, b, c, d, port], _ => exact ⟨[a, b, c, d], port, hserver, rfl, Or.inl hns⟩
  · generalize hns : sscanf portIp str = ns at h
    match ns, h with
    | [port, a, b, c, d], _ => exact ⟨[a, b, c, d], port, hserver, rfl, Or.inr hns⟩

/-- A string that is not parsed as a whole changes at most the port, and only where that comes first. -/
theorem parserTcp_of_not_parsed (h : ¬ ∃ ip port, Parsed str ip port) :
    (parserTcp s str).clientIp = s.clientIp ∧ ((parserTcp s str).clientPort ≠ s.clientPort ↔ PartialPort s str) := by
  by_cases hserver : IsServerPort str
  · rw [parserTcp, if_pos hserver]
    exact ⟨rfl, iff_of_false (fun hne => hne rfl) fun hpart => hpart.1 hserver⟩
  · have hshort : ∀ seps, (seps = ipPort ∨ seps = portIp) → (sscanf seps str).length < 5 := by
      rintro seps (rfl | rfl)
      · exact Nat.lt_of_le_of_ne (length_sscanf_le _ _) fun hlen => h (exists_parsed hserver (Or.inl hlen))
      · exact Nat.lt_of_le_of_ne (length_sscanf_le _ _) fun hlen => h (exists_parsed hserver (Or.inr hlen))
    have hipPort := hshort ipPort (Or.inl rfl)
    have hportIp := hshort portIp (Or.inr rfl)
    rw [parserTcp, if_neg hserver, PartialPort]
    cases hcolon : strstr str [0x3a] with
    | none => exact ⟨rfl, iff_of_false (fun hne => hne rfl) (by simp)⟩
    | some colon =>
        cases hdot : strstr str [0x2e] with
        | none => exact ⟨rfl, iff_of_false (fun hne => hne rfl) (by simp)⟩
        | some dot =>
            by_cases hlt : dot < colon
            · -- the port would have been the last number
              have hnone : (sscanf ipPort str)[4]? = none := List.getElem?_eq_none (by omega)
              simp only [if_pos hlt, hnone, saveClientIp, if_neg (Nat.ne_of_lt hipPort)]
              refine ⟨trivial, iff_of_false (fun hne => hne rfl) ?_⟩
              rintro ⟨-, ⟨colon', dot', hcolon', hdot', hle⟩, -⟩
              obtain rfl := Option.some.inj hcolon'
              obtain rfl := Option.some.inj hdot'
              omega
            · simp only [if_neg hlt, saveClientIp, if_neg (Nat.ne_of_lt hportIp)]
              refine ⟨trivial, ?_⟩
              constructor
              · intro hne
                refine ⟨hserver, ⟨colon, dot, rfl, rfl, Nat.not_lt.mp hlt⟩, hportIp, ?_⟩
                cases hport : (sscanf portIp str)[0]? with
                | none => exact absurd (by rw [hport]; rfl) hne
                | some port => exact ⟨port, rfl, by rwa [hport] at hne⟩
              · rintro ⟨-, -, -, port, hport, hne⟩
                rwa [hport]

/-- **One string**, where the last byte of the address is zero. -/
theorem failedParseKeeps_iff (h : Terminated s.clientIp) :
    FailedParseKeeps s str ↔ ¬ PartialPort s str ∧ ¬ OutOfRange str := by
  rw [FailedParseKeeps, OutOfRange]
  constructor
  · rintro ⟨hkeeps, hdotted⟩
    refine ⟨fun hpart => ?_, ?_⟩
    · by_cases hparsed : ∃ ip port, Parsed str ip port
      · -- a string that begins with a port and is parsed has all its numbers
        obtain ⟨ip, port, hip⟩ := hparsed
        obtain ⟨-, hlen, colon, dot, hcolon, hdot, hscan⟩ := hip.order
        obtain ⟨-, ⟨colon', dot', hcolon', hdot', hle⟩, hshort, -⟩ := hpart
        obtain rfl := Option.some.inj (hcolon.symm.trans hcolon')
        obtain rfl := Option.some.inj (hdot.symm.trans hdot')
        rcases hscan with ⟨hlt, -⟩ | ⟨-, hns⟩
        · omega
        · rw [hns, List.length_cons, hlen] at hshort
          omega
      · exact (parserTcp_of_not_parsed hparsed).2.mpr hpart (hkeeps hparsed).1
    · rintro ⟨ip, port, hip, n, hn, hout⟩
      have hsaved := hdotted ip port hip
      rw [parserTcp_of_parsed hip, cString_saveClientIp h hip.2.1, dotted_bytes_iff hip.2.1] at hsaved
      exact hout (hsaved n hn)
  · rintro ⟨hpart, hrange⟩
    refine ⟨fun hparsed => ?_, fun ip port hip => ?_⟩
    · obtain ⟨hclientIp, hport⟩ := parserTcp_of_not_parsed (s := s) hparsed
      have hsame : (parserTcp s str).clientPort = s.clientPort := not_not.mp fun hne => hpart (hport.mp hne)
      exact ⟨hsame, hclientIp, by rw [TcpGlobals.isTcpClient, TcpGlobals.isTcpClient, hsame]⟩
    · rw [parserTcp_of_parsed hip, cString_saveClientIp h hip.2.1, dotted_bytes_iff hip.2.1]
      intro n hn
      by_contra hout
      exact hrange ⟨ip, port, hip, n, hn, hout⟩

end Step

/-! ## Any strings before -/

/-- The globals behind some options. -/
def afterOptions (earlier : List (List UInt8)) : TcpGlobals := earlier.foldl parserTcp tcpGlobals

theorem afterOptions_terminated (earlier : List (List UInt8)) : Terminated (afterOptions earlier).clientIp := by
  have hrun : ∀ s : TcpGlobals, Terminated s.clientIp → Terminated (earlier.foldl parserTcp s).clientIp := by
    induction earlier with
    | nil => exact fun s hs => hs
    | cons str earlier ih => exact fun s hs => ih (parserTcp s str) (parserTcp_terminated hs)
  exact hrun tcpGlobals rfl

/-- **A failed address parse.** Behind any options, a string changes the port and the address of the server only if it
is parsed as a whole, and then the address is the one in the string, exactly if it is not a string that begins with a
new port and goes on with no address, and the numbers of the address fit a byte each. -/
theorem failedParseKeeps_afterOptions (earlier : List (List UInt8)) (str : List UInt8) :
    FailedParseKeeps (afterOptions earlier) str ↔ ¬ PartialPort (afterOptions earlier) str ∧ ¬ OutOfRange str :=
  failedParseKeeps_iff (afterOptions_terminated earlier)

/-- The directory `12:abc.def` makes a TCP client of the program. -/
theorem parserTcp_directory :
    let str : List UInt8 := [0x31, 0x32, 0x3a, 0x61, 0x62, 0x63, 0x2e, 0x64, 0x65, 0x66]
    ¬ FailedParseKeeps (afterOptions []) str ∧ (parserTcp (afterOptions []) str).isTcpClient = true := by
  intro str
  refine ⟨fun hkeeps => ?_, by decide⟩
  have hpartial : PartialPort (afterOptions []) str :=
    ⟨by decide, ⟨2, 6, by decide, by decide, by decide⟩, by decide, 12, by decide, by decide⟩
  exact ((failedParseKeeps_iff (afterOptions_terminated [])).mp hkeeps).1 hpartial

end QLog.Options
