import QLog.Library.ByteBuffer
import QLog.Library.CString
import QLog.Rotation.Compress

/-! # The FTP server of the option `-s`

`parser_ftp` cuts the address, the user and the password out of `ftp:IP-user:xxx-pass:xxx` and copies each to a static
buffer. `strncpy` is given the length of the text, so it copies the text and no zero byte: the buffer ends where it has
ended before, or not at all. -/

namespace QLog.Options

open Library Compress

/-- What keeps `parser_ftp` from returning. -/
inductive FtpAbort
  /-- `exit(1)` -/
  | exit
  /-- `strncpy` is given a length that the buffer does not have. -/
  | overrun
deriving DecidableEq

/-- `static char [n]` -/
def Temp (n : Nat) : Type := {bytes : List UInt8 // bytes.length = n}

/-- The buffer as it is initialised. -/
def Temp.zero (n : Nat) : Temp n := ⟨List.replicate n 0, List.length_replicate⟩

/-- A copy to the front of the buffer. -/
def Temp.put {n : Nat} (t : Temp n) (text : List UInt8) (h : text.length ≤ n) : Temp n :=
  ⟨overwrite t.val 0 text, (length_overwrite t.val text (by rwa [Nat.zero_add, t.property])).trans t.property⟩

/-- `strncpy`, with a length that becomes a `size_t`. -/
def Temp.strncpy {n : Nat} (t : Temp n) (src : List UInt8) (len : Int) : Except FtpAbort (Temp n) :=
  if h : 0 ≤ len ∧ len ≤ n then
    .ok (t.put (Library.strncpy src len.toNat) (by rw [length_strncpy]; omega))
  else .error .overrun

/-- The three buffers. `g_ftp_server_ip`, `g_ftp_server_usr` and `g_ftp_server_pass` are null or point to them. -/
structure FtpServer where
  ip : Temp 16
  usr : Temp 32
  pass : Temp 32
  assigned : Bool

/-- Before the first option. -/
def ftpServer : FtpServer := ⟨Temp.zero 16, Temp.zero 32, Temp.zero 32, false⟩

/-- `FTP_F`, which is `ftp:` -/
def ftpF : List UInt8 := [0x66, 0x74, 0x70, 0x3a]

/-- `user:` -/
def userText : List UInt8 := [0x75, 0x73, 0x65, 0x72, 0x3a]

/-- `pass:` -/
def passText : List UInt8 := [0x70, 0x61, 0x73, 0x73, 0x3a]

/-- `parser_ftp` -/
def parserFtp (s : FtpServer) (str : List UInt8) : Except FtpAbort FtpServer :=
  if ftpF.isPrefixOf str then
    match strstr str userText, strstr str passText with
    | some bufTemp1, some bufTemp2 => do
        let len1 : Int := bufTemp1 - 5
        let len2 : Int := bufTemp2 - bufTemp1 - 6
        let len3 : Int := str.length - bufTemp2 - 5
        -- only the comparison is made with an `int`
        if 16 < int32 len1 ∨ 32 < int32 len2 ∨ 32 < int32 len3 then return s
        let ip ← s.ip.strncpy (str.drop 4) len1
        let usr ← s.usr.strncpy (str.drop (bufTemp1 + 5)) len2
        let pass ← s.pass.strncpy (str.drop (bufTemp2 + 5)) len3
        return ⟨ip, usr, pass, true⟩
    | _, _ => .error .exit
  else return s

/-- An option `ftp:IP-user:U-pass:P` within the documented limits. -/
structure FtpOption where
  ip : List UInt8
  usr : List UInt8
  pass : List UInt8
  length_ip_le : ip.length ≤ 15
  length_usr_le : usr.length ≤ 32
  length_pass_le : pass.length ≤ 32
  /-- a string -/
  zero_not_mem : 0 ∉ ip ++ usr ++ pass
  user_not_infix : ∀ text ∈ [ip, usr, pass], ¬ userText <:+: text
  pass_not_infix : ∀ text ∈ [ip, usr, pass], ¬ passText <:+: text

/-- The option as it is given. -/
def FtpOption.str (o : FtpOption) : List UInt8 :=
  ftpF ++ (o.ip ++ 0x2d :: (userText ++ (o.usr ++ 0x2d :: (passText ++ o.pass))))

/-- The buffer holds a string that ends in it. -/
def Temp.Holds {n : Nat} (t : Temp n) (text : List UInt8) : Prop := 0 ∈ t.val ∧ cString t.val = text

/-- The options are parsed one after another, and the three strings are those of the last one. -/
def CredentialsSurvive (earlier : List FtpOption) (last : FtpOption) : Prop :=
  ∃ s : FtpServer, ((earlier ++ [last]).map FtpOption.str).foldlM parserFtp ftpServer = .ok s ∧
    s.assigned = true ∧ s.ip.Holds last.ip ∧ s.usr.Holds last.usr ∧ s.pass.Holds last.pass

/-! ## One option -/

/-- What an option leaves. -/
def FtpServer.store (s : FtpServer) (o : FtpOption) : FtpServer where
  ip := s.ip.put o.ip (Nat.le_succ_of_le o.length_ip_le)
  usr := s.usr.put o.usr o.length_usr_le
  pass := s.pass.put o.pass o.length_pass_le
  assigned := true

section Option

variable (o : FtpOption)

/-- No key begins in `ftp:` or in `user:`, so that there is none in front of the text behind them. -/
theorem not_infix_behind {key pat text : List UInt8} (hkey : key = ftpF ∨ key = userText ∧ pat = passText)
    (hpat : pat = userText ∨ pat = passText) (h : ¬ pat <:+: text) : ¬ pat <:+: key ++ text := by
  rcases hkey with rfl | ⟨rfl, rfl⟩
  · rcases hpat with rfl | rfl
    · simpa [ftpF, userText, List.infix_cons_iff, List.cons_prefix_cons] using h
    · simpa [ftpF, passText, List.infix_cons_iff, List.cons_prefix_cons] using h
  · simpa [userText, passText, List.infix_cons_iff, List.cons_prefix_cons] using h

theorem FtpOption.str_eq : o.str =
    (ftpF ++ o.ip) ++ 0x2d :: ((userText ++ o.usr) ++ 0x2d :: (passText ++ o.pass)) := by
  simp [FtpOption.str]

/-- The first `user:` is the one behind the address. -/
theorem FtpOption.strstr_user : strstr o.str userText = some (o.ip.length + 5) := by
  have hip : ¬ userText <:+: ftpF ++ o.ip :=
    not_infix_behind (Or.inl rfl) (Or.inl rfl) (o.user_not_infix _ (by simp))
  have hkey : strstr ((userText ++ o.usr) ++ 0x2d :: (passText ++ o.pass)) userText = some 0 :=
    strstr_of_isPrefix (by decide) ⟨_, (List.append_assoc ..).symm⟩
  rw [o.str_eq, strstr_append_cons (by decide) (by decide) _ _ hip, hkey, List.length_append]
  simp only [Option.map_some, ftpF, List.length_cons, List.length_nil, Option.some.injEq]
  omega

/-- The first `pass:` is the one behind the user. -/
theorem FtpOption.strstr_pass : strstr o.str passText = some (o.ip.length + o.usr.length + 11) := by
  have hip : ¬ passText <:+: ftpF ++ o.ip :=
    not_infix_behind (Or.inl rfl) (Or.inr rfl) (o.pass_not_infix _ (by simp))
  have husr : ¬ passText <:+: userText ++ o.usr :=
    not_infix_behind (Or.inr ⟨rfl, rfl⟩) (Or.inr rfl) (o.pass_not_infix _ (by simp))
  have hkey : strstr (passText ++ o.pass) passText = some 0 := strstr_of_isPrefix (by decide) ⟨_, rfl⟩
  rw [o.str_eq, strstr_append_cons (by decide) (by decide) _ _ hip,
    strstr_append_cons (by decide) (by decide) _ _ husr, hkey, List.length_append, List.length_append]
  simp only [Option.map_some, ftpF, userText, List.length_cons, List.length_nil, Option.some.injEq]
  omega

theorem FtpOption.length_str : o.str.length = o.ip.length + o.usr.length + o.pass.length + 16 := by
  rw [o.str_eq]
  simp only [List.length_append, List.length_cons, ftpF, userText, passText, List.length_nil]
  omega

/-- What stands behind the keys. -/
theorem FtpOption.drop_str :
    (∃ rest, o.str.drop 4 = o.ip ++ rest) ∧ (∃ rest, o.str.drop (o.ip.length + 5 + 5) = o.usr ++ rest) ∧
      o.str.drop (o.ip.length + o.usr.length + 11 + 5) = o.pass := by
  have husr : o.str = (ftpF ++ o.ip ++ 0x2d :: userText) ++ (o.usr ++ 0x2d :: (passText ++ o.pass)) := by
    simp [FtpOption.str]
  have hpass : o.str = (ftpF ++ o.ip ++ 0x2d :: userText ++ o.usr ++ 0x2d :: passText) ++ o.pass := by
    simp [FtpOption.str]
  refine ⟨⟨0x2d :: (userText ++ (o.usr ++ 0x2d :: (passText ++ o.pass))), rfl⟩,
    ⟨0x2d :: (passText ++ o.pass), ?_⟩, ?_⟩
  · rw [husr]
    exact List.drop_left' (by simp [ftpF, userText])
  · rw [hpass]
    exact List.drop_left' (by simp [ftpF, userText, passText]; omega)

/-- `strncpy` with the length of a text that stands in front. -/
theorem Temp.strncpy_text {n : Nat} (t : Temp n) {text : List UInt8} (h : text.length ≤ n) (hzero : 0 ∉ text)
    (rest : List UInt8) : t.strncpy (text ++ rest) text.length = .ok (t.put text h) := by
  have hcopied : Library.strncpy (text ++ rest) text.length = text := by
    rw [Library.strncpy, List.take_left, cString_of_not_mem hzero, Nat.sub_self, List.replicate_zero, List.append_nil]
  rw [Temp.strncpy, dif_pos ⟨Int.natCast_nonneg _, Int.ofNat_le.mpr h⟩]
  simp only [Int.toNat_natCast, hcopied]

/-- **One option** within the limits is copied to the front of the buffers. -/
theorem parserFtp_str (s : FtpServer) : parserFtp s o.str = .ok (s.store o) := by
  have hftp : ftpF.isPrefixOf o.str = true := List.isPrefixOf_iff_prefix.mpr (List.prefix_append _ _)
  have hzero := o.zero_not_mem
  simp only [List.mem_append, not_or] at hzero
  obtain ⟨⟨hip, husr⟩, hpass⟩ := hzero
  obtain ⟨⟨rest, hip'⟩, ⟨rest', husr'⟩, hpass'⟩ := o.drop_str
  have hlen1 : ((o.ip.length + 5 : Nat) : Int) - 5 = o.ip.length := by omega
  have hlen2 : ((o.ip.length + o.usr.length + 11 : Nat) : Int) - (o.ip.length + 5 : Nat) - 6 = o.usr.length := by omega
  have hlen3 : (o.str.length : Int) - (o.ip.length + o.usr.length + 11 : Nat) - 5 = o.pass.length := by
    rw [o.length_str]
    omega
  have hint : ∀ {k : Nat}, k ≤ 32 → int32 k = k := fun h => Int.bmod_eq_of_le_mul_two (by omega) (by omega)
  have hshort : ¬ ((16 : Int) < o.ip.length ∨ (32 : Int) < o.usr.length ∨ (32 : Int) < o.pass.length) := by
    have h1 := o.length_ip_le
    have h2 := o.length_usr_le
    have h3 := o.length_pass_le
    omega
  have hcopied := s.pass.strncpy_text o.length_pass_le hpass []
  rw [List.append_nil] at hcopied
  simp only [parserFtp, hftp, if_true, o.strstr_user, o.strstr_pass, hlen1, hlen2, hlen3, hip', husr', hpass',
    hint (Nat.le_trans o.length_ip_le (by decide)), hint o.length_usr_le, hint o.length_pass_le, if_neg hshort,
    Temp.strncpy_text s.ip (Nat.le_succ_of_le o.length_ip_le) hip, Temp.strncpy_text s.usr o.length_usr_le husr,
    hcopied]
  rfl

end Option

/-! ## A sequence of options -/

theorem foldlM_parserFtp (s : FtpServer) (os : List FtpOption) :
    (os.map FtpOption.str).foldlM parserFtp s = .ok (os.foldl FtpServer.store s) := by
  induction os generalizing s with
  | nil => rfl
  | cons o os ih =>
      rw [List.map_cons, List.foldlM_cons, parserFtp_str, List.foldl_cons]
      exact ih (s.store o)

/-- The buffer holds a text without a zero byte, and zeros behind it. -/
structure Temp.Filled {n : Nat} (t : Temp n) (text : List UInt8) : Prop where
  val_eq : t.val = text ++ List.replicate (n - text.length) 0
  zero_not_mem : 0 ∉ text
  length_le : text.length ≤ n

section Filled

variable {n : Nat} {t : Temp n} {text more : List UInt8}

theorem Temp.filled_zero (n : Nat) : (Temp.zero n).Filled [] := ⟨rfl, List.not_mem_nil, Nat.zero_le n⟩

/-- A copy to the front leaves what a longer text has behind it. -/
theorem Temp.Filled.put (ht : t.Filled text) (hmore : 0 ∉ more) (h : more.length ≤ n) :
    (t.put more h).Filled (overwrite text 0 more) := by
  obtain ⟨hval, hzero, hle⟩ := ht
  rw [overwrite_zero]
  refine ⟨?_, ?_, ?_⟩
  · show overwrite t.val 0 more = _
    rw [overwrite_zero, hval, List.drop_append, List.drop_replicate, List.append_assoc, List.length_append,
      List.length_drop]
    congr 3
    omega
  · rw [List.mem_append, not_or]
    exact ⟨hmore, fun hmem => hzero (List.mem_of_mem_drop hmem)⟩
  · rw [List.length_append, List.length_drop]
    omega

theorem Temp.Filled.holds_iff (ht : t.Filled text) : t.Holds more ↔ text = more ∧ text.length < n := by
  obtain ⟨hval, hzero, hle⟩ := ht
  have hcut : cString t.val = text := by
    rw [hval, cString_append_of_not_mem hzero]
    cases n - text.length with
    | zero => simp
    | succ k => simp [List.replicate_succ]
  have hend : 0 ∈ t.val ↔ text.length < n := by
    rw [hval, List.mem_append, or_iff_right hzero, List.mem_replicate, and_iff_left rfl]
    omega
  rw [Temp.Holds, hend, hcut, and_comm]

end Filled

/-- What a buffer holds after some texts is as long as the longest of them. -/
theorem length_foldl_overwrite_le (texts : List (List UInt8)) (text : List UInt8) (m : Nat) :
    (texts.foldl (fun text more => overwrite text 0 more) text).length ≤ m ↔
      text.length ≤ m ∧ ∀ more ∈ texts, more.length ≤ m := by
  induction texts generalizing text with
  | nil => simp
  | cons more texts ih =>
      have hlen : (overwrite text 0 more).length ≤ m ↔ text.length ≤ m ∧ more.length ≤ m := by
        rw [overwrite_zero, List.length_append, List.length_drop]
        omega
      rw [List.foldl_cons, ih, hlen, List.forall_mem_cons, and_assoc]

/-- A buffer that every option copies its text to. -/
structure FieldOf {n : Nat} (temp : FtpServer → Temp n) (sel : FtpOption → List UInt8) : Prop where
  start : temp ftpServer = Temp.zero n
  length_le : ∀ o, (sel o).length ≤ n
  store : ∀ s o, temp (s.store o) = (temp s).put (sel o) (length_le o)
  zero_not_mem : ∀ o, 0 ∉ sel o

section FieldOf

variable {n : Nat} {temp : FtpServer → Temp n} {sel : FtpOption → List UInt8}

theorem FieldOf.filled (h : FieldOf temp sel) (os : List FtpOption) {s : FtpServer} {text : List UInt8}
    (hs : (temp s).Filled text) : (temp (os.foldl FtpServer.store s)).Filled
      ((os.map sel).foldl (fun text more => overwrite text 0 more) text) := by
  induction os generalizing s text with
  | nil => exact hs
  | cons o os ih =>
      refine ih ?_
      rw [h.store]
      exact hs.put (h.zero_not_mem o) (h.length_le o)

/-- The buffer holds the last text exactly if no text before was longer, and there is room for the zero. -/
theorem FieldOf.holds_iff (h : FieldOf temp sel) (earlier : List FtpOption) (last : FtpOption) :
    (temp ((earlier ++ [last]).foldl FtpServer.store ftpServer)).Holds (sel last) ↔
      (sel last).length < n ∧ ∀ o ∈ earlier, (sel o).length ≤ (sel last).length := by
  have hstart : (temp ftpServer).Filled [] := by
    rw [h.start]
    exact Temp.filled_zero n
  have hend := h.filled (earlier ++ [last]) hstart
  rw [hend.holds_iff, List.map_append, List.map_singleton, List.foldl_append, List.foldl_cons, List.foldl_nil]
  have hlonger := length_foldl_overwrite_le (earlier.map sel) [] (sel last).length
  generalize (earlier.map sel).foldl (fun text more => overwrite text 0 more) [] = before at hlonger ⊢
  -- the last text is alone in the buffer if nothing reaches behind it
  have halone : overwrite before 0 (sel last) = sel last ↔ before.length ≤ (sel last).length := by
    rw [overwrite_zero, List.append_right_eq_self, List.drop_eq_nil_iff]
  rw [halone, hlonger]
  constructor
  · rintro ⟨⟨-, hall⟩, hroom⟩
    have hbefore := hlonger.mpr ⟨Nat.zero_le _, hall⟩
    rw [halone.mpr hbefore] at hroom
    exact ⟨hroom, fun o ho => hall _ (List.mem_map_of_mem ho)⟩
  · rintro ⟨hroom, hall⟩
    have hall' : ∀ more ∈ earlier.map sel, more.length ≤ (sel last).length := List.forall_mem_map.mpr hall
    rw [halone.mpr (hlonger.mpr ⟨Nat.zero_le _, hall'⟩)]
    exact ⟨⟨Nat.zero_le _, hall'⟩, hroom⟩

end FieldOf

theorem FtpOption.zero_not_mem_fields (o : FtpOption) : 0 ∉ o.ip ∧ 0 ∉ o.usr ∧ 0 ∉ o.pass := by
  have hzero := o.zero_not_mem
  simpa only [List.mem_append, not_or, and_assoc] using hzero

theorem fieldOf_ip : FieldOf FtpServer.ip FtpOption.ip :=
  ⟨rfl, fun o => Nat.le_succ_of_le o.length_ip_le, fun _ _ => rfl, fun o => o.zero_not_mem_fields.1⟩

theorem fieldOf_usr : FieldOf FtpServer.usr FtpOption.usr :=
  ⟨rfl, FtpOption.length_usr_le, fun _ _ => rfl, fun o => o.zero_not_mem_fields.2.1⟩

theorem fieldOf_pass : FieldOf FtpServer.pass FtpOption.pass :=
  ⟨rfl, FtpOption.length_pass_le, fun _ _ => rfl, fun o => o.zero_not_mem_fields.2.2⟩

/-- No field of the last option is shorter than that field of an option before, and both texts leave room for a zero
byte. -/
def Fresh (earlier : List FtpOption) (last : FtpOption) : Prop :=
  (last.usr.length < 32 ∧ last.pass.length < 32) ∧
    ∀ o ∈ earlier, o.ip.length ≤ last.ip.length ∧ o.usr.length ≤ last.usr.length ∧ o.pass.length ≤ last.pass.length

instance (earlier : List FtpOption) (last : FtpOption) : Decidable (Fresh earlier last) :=
  inferInstanceAs (Decidable (_ ∧ _))

/-- The three buffers behind a sequence of options. -/
theorem credentialsSurvive_iff_fields (earlier : List FtpOption) (last : FtpOption) :
    CredentialsSurvive earlier last ↔
      (last.ip.length < 16 ∧ ∀ o ∈ earlier, o.ip.length ≤ last.ip.length) ∧
      (last.usr.length < 32 ∧ ∀ o ∈ earlier, o.usr.length ≤ last.usr.length) ∧
      (last.pass.length < 32 ∧ ∀ o ∈ earlier, o.pass.length ≤ last.pass.length) := by
  have hassigned : ((earlier ++ [last]).foldl FtpServer.store ftpServer).assigned = true := by
    rw [List.foldl_append]
    rfl
  rw [CredentialsSurvive, foldlM_parserFtp, ← fieldOf_ip.holds_iff, ← fieldOf_usr.holds_iff, ← fieldOf_pass.holds_iff]
  constructor
  · rintro ⟨s, hs, -, hholds⟩
    obtain rfl := Except.ok.inj hs
    exact hholds
  · exact fun hholds => ⟨_, rfl, hassigned, hholds⟩

/-- **The FTP credentials.** After a sequence of options within the documented limits the three strings end in their
buffers and are those of the last option exactly if no field of it is shorter than that field of an option before, and
its user and its password have less than 32 characters. -/
theorem credentialsSurvive_iff (earlier : List FtpOption) (last : FtpOption) :
    CredentialsSurvive earlier last ↔ Fresh earlier last := by
  have hip : last.ip.length < 16 := Nat.lt_succ_of_le last.length_ip_le
  rw [credentialsSurvive_iff_fields, Fresh]
  constructor
  · rintro ⟨⟨-, hip'⟩, ⟨husr, husr'⟩, hpass, hpass'⟩
    exact ⟨⟨husr, hpass⟩, fun o ho => ⟨hip' o ho, husr' o ho, hpass' o ho⟩⟩
  · rintro ⟨⟨husr, hpass⟩, hall⟩
    exact ⟨⟨hip, fun o ho => (hall o ho).1⟩, ⟨husr, fun o ho => (hall o ho).2.1⟩, hpass, fun o ho => (hall o ho).2.2⟩

/-- `ftp:10.66.90.68-user:aaron1-pass:123456` -/
def exampleOption : FtpOption where
  ip := [0x31, 0x30, 0x2e, 0x36, 0x36, 0x2e, 0x39, 0x30, 0x2e, 0x36, 0x38]
  usr := [0x61, 0x61, 0x72, 0x6f, 0x6e, 0x31]
  pass := [0x31, 0x32, 0x33, 0x34, 0x35, 0x36]
  length_ip_le := by decide
  length_usr_le := by decide
  length_pass_le := by decide
  zero_not_mem := by decide
  user_not_infix := by decide
  pass_not_infix := by decide

/-- `ftp:10.66.90.68-user:bob-pass:123456` -/
def bobOption : FtpOption where
  ip := exampleOption.ip
  usr := [0x62, 0x6f, 0x62]
  pass := exampleOption.pass
  length_ip_le := by decide
  length_usr_le := by decide
  length_pass_le := by decide
  zero_not_mem := by decide
  user_not_infix := by decide
  pass_not_infix := by decide

/-- After `aaron1`, the user `bob` is stored as `bobon1`. -/
theorem credentials_bob : ¬ CredentialsSurvive [exampleOption] bobOption := by
  intro h
  have husr := ((credentialsSurvive_iff_fields _ _).mp h).2.1.2 exampleOption List.mem_cons_self
  exact absurd husr (by decide)

end QLog.Options
