import QLog.Library.ByteBuffer
import QLog.Library.Crc

/-! # The check sum of the DIAG requests

`crc_16_l_calc` takes whole bytes with a table of 256 constants and the bits behind them one by one. A request gets its
check sum and the delimiter appended; on a request with its check sum the check sum is always the same. -/

namespace QLog.Qsr4

open Library

/-- `CRC_16_L_SEED` -/
def crc16LSeed : UInt16 := 0xFFFF

/-- `CRC_16_L_POLYNOMIAL` -/
def crc16LPolynomial : UInt16 := 0x8408

/-- `crc_16_l_table` -/
def crc16LTable : List UInt16 :=
  [0x0000, 0x1189, 0x2312, 0x329b, 0x4624, 0x57ad, 0x6536, 0x74bf, 0x8c48, 0x9dc1, 0xaf5a, 0xbed3, 0xca6c, 0xdbe5,
    0xe97e, 0xf8f7, 0x1081, 0x0108, 0x3393, 0x221a, 0x56a5, 0x472c, 0x75b7, 0x643e, 0x9cc9, 0x8d40, 0xbfdb, 0xae52,
    0xdaed, 0xcb64, 0xf9ff, 0xe876, 0x2102, 0x308b, 0x0210, 0x1399, 0x6726, 0x76af, 0x4434, 0x55bd, 0xad4a, 0xbcc3,
    0x8e58, 0x9fd1, 0xeb6e, 0xfae7, 0xc87c, 0xd9f5, 0x3183, 0x200a, 0x1291, 0x0318, 0x77a7, 0x662e, 0x54b5, 0x453c,
    0xbdcb, 0xac42, 0x9ed9, 0x8f50, 0xfbef, 0xea66, 0xd8fd, 0xc974, 0x4204, 0x538d, 0x6116, 0x709f, 0x0420, 0x15a9,
    0x2732, 0x36bb, 0xce4c, 0xdfc5, 0xed5e, 0xfcd7, 0x8868, 0x99e1, 0xab7a, 0xbaf3, 0x5285, 0x430c, 0x7197, 0x601e,
    0x14a1, 0x0528, 0x37b3, 0x263a, 0xdecd, 0xcf44, 0xfddf, 0xec56, 0x98e9, 0x8960, 0xbbfb, 0xaa72, 0x6306, 0x728f,
    0x4014, 0x519d, 0x2522, 0x34ab, 0x0630, 0x17b9, 0xef4e, 0xfec7, 0xcc5c, 0xddd5, 0xa96a, 0xb8e3, 0x8a78, 0x9bf1,
    0x7387, 0x620e, 0x5095, 0x411c, 0x35a3, 0x242a, 0x16b1, 0x0738, 0xffcf, 0xee46, 0xdcdd, 0xcd54, 0xb9eb, 0xa862,
    0x9af9, 0x8b70, 0x8408, 0x9581, 0xa71a, 0xb693, 0xc22c, 0xd3a5, 0xe13e, 0xf0b7, 0x0840, 0x19c9, 0x2b52, 0x3adb,
    0x4e64, 0x5fed, 0x6d76, 0x7cff, 0x9489, 0x8500, 0xb79b, 0xa612, 0xd2ad, 0xc324, 0xf1bf, 0xe036, 0x18c1, 0x0948,
    0x3bd3, 0x2a5a, 0x5ee5, 0x4f6c, 0x7df7, 0x6c7e, 0xa50a, 0xb483, 0x8618, 0x9791, 0xe32e, 0xf2a7, 0xc03c, 0xd1b5,
    0x2942, 0x38cb, 0x0a50, 0x1bd9, 0x6f66, 0x7eef, 0x4c74, 0x5dfd, 0xb58b, 0xa402, 0x9699, 0x8710, 0xf3af, 0xe226,
    0xd0bd, 0xc134, 0x39c3, 0x284a, 0x1ad1, 0x0b58, 0x7fe7, 0x6e6e, 0x5cf5, 0x4d7c, 0xc60c, 0xd785, 0xe51e, 0xf497,
    0x8028, 0x91a1, 0xa33a, 0xb2b3, 0x4a44, 0x5bcd, 0x6956, 0x78df, 0x0c60, 0x1de9, 0x2f72, 0x3efb, 0xd68d, 0xc704,
    0xf59f, 0xe416, 0x90a9, 0x8120, 0xb3bb, 0xa232, 0x5ac5, 0x4b4c, 0x79d7, 0x685e, 0x1ce1, 0x0d68, 0x3ff3, 0x2e7a,
    0xe70e, 0xf687, 0xc41c, 0xd595, 0xa12a, 0xb0a3, 0x8238, 0x93b1, 0x6b46, 0x7acf, 0x4854, 0x59dd, 0x2d62, 0x3ceb,
    0x0e70, 0x1ff9, 0xf78f, 0xe606, 0xd49d, 0xc514, 0xb1ab, 0xa022, 0x92b9, 0x8330, 0x7bc7, 0x6a4e, 0x58d5, 0x495c,
    0x3de3, 0x2c6a, 0x1ef1, 0x0f78]

/-- The round of `crc_16_l_calc` for a whole byte. -/
def crc16LByte (crc16 : UInt16) (b : UInt8) : UInt16 :=
  crc16LTable.getD ((crc16 ^^^ b.toUInt16) &&& 0x00ff).toNat 0 ^^^ crc16 >>> 8

/-- The rounds for the bits behind the whole bytes. -/
def crc16LBits : Nat → UInt16 → UInt16 → UInt16
  | 0, _, crc16 => crc16
  | len + 1, data, crc16 =>
      crc16LBits len (data >>> 1)
        (if (crc16 ^^^ data) &&& 0x01 ≠ 0 then crc16 >>> 1 ^^^ crc16LPolynomial else crc16 >>> 1)

/-- `crc_16_l_calc`, of `len` bits. -/
def crc16LCalc (buf : List UInt8) (len : Nat) : UInt16 :=
  let crc16 := (buf.take (len / 8)).foldl crc16LByte crc16LSeed
  let crc16 := if len % 8 ≠ 0 then crc16LBits (len % 8) ((buf.getD (len / 8) 0).toUInt16 <<< 8) crc16 else crc16
  ~~~crc16

/-- `diag_qsr4_append_crc16`: the buffer, and the length that is returned. -/
def diagQsr4AppendCrc16 (buf : List UInt8) (len : Nat) : List UInt8 × UInt16 :=
  let crc := crc16LCalc buf (len * 8)
  (overwrite buf len [(crc &&& 0xFF).toUInt8, (crc >>> 8 &&& 0xFF).toUInt8, 0x7E], UInt16.ofNat (len + 3))

/-- The table holds the registers after eight shifts. -/
theorem crcTable_crc16LTable :
    CrcTable crc16LPolynomial.toBitVec 8 fun i => (crc16LTable.getD i 0).toBitVec := by
  unfold CrcTable
  decide +kernel

/-- A round does the eight bits of its byte. -/
theorem crc16LByte_toBitVec (crc16 : UInt16) (b : UInt8) :
    (crc16LByte crc16 b).toBitVec = crcBits crc16LPolynomial.toBitVec crc16.toBitVec (lsbBits 8 b.toNat) := by
  have hindex : ((crc16 ^^^ b.toUInt16) &&& 0x00ff).toNat = (crc16.toNat ^^^ b.toNat) % 2 ^ 8 := by
    rw [UInt16.toNat_and, UInt16.toNat_xor, UInt8.toNat_toUInt16]
    exact Nat.and_two_pow_sub_one_eq_mod _ 8
  rw [crcBits_eq_table _ (by decide) crcTable_crc16LTable, crc16LByte, UInt16.toBitVec_xor, hindex]
  rfl

theorem foldl_crc16LByte (crc16 : UInt16) (bytes : List UInt8) :
    (bytes.foldl crc16LByte crc16).toBitVec = crcBytes crc16LPolynomial.toBitVec crc16.toBitVec bytes :=
  crcBytes_foldl _ crc16LByte_toBitVec crc16 bytes

/-- The check sum of whole bytes. -/
theorem crc16LCalc_bytes (buf : List UInt8) (n : Nat) :
    crc16LCalc buf (8 * n) = ~~~(buf.take n).foldl crc16LByte crc16LSeed := by
  rw [crc16LCalc, Nat.mul_mod_right, Nat.mul_div_cancel_left n (by decide)]
  rfl

/-- The two bytes of a check sum hold its bits. -/
theorem bits_crc16 (crc : UInt16) :
    ([(crc &&& 0xFF).toUInt8, (crc >>> 8 &&& 0xFF).toUInt8].flatMap fun b => lsbBits 8 b.toNat) =
      lsbBits 16 crc.toNat := by
  have hlow : ((crc &&& 0xFF).toUInt8).toNat = crc.toNat % 2 ^ 8 := by
    rw [UInt16.toNat_toUInt8, UInt16.toNat_and]
    simp [Nat.and_two_pow_sub_one_eq_mod crc.toNat 8]
  have hhigh : ((crc >>> 8 &&& 0xFF).toUInt8).toNat = crc.toNat / 2 ^ 8 := by
    have hlt := crc.toNat_lt
    rw [UInt16.toNat_toUInt8, UInt16.toNat_and, UInt16.toNat_shiftRight]
    have hmask : (crc.toNat >>> 8) &&& 0xFF = crc.toNat / 2 ^ 8 % 2 ^ 8 := by
      rw [Nat.shiftRight_eq_div_pow]
      exact Nat.and_two_pow_sub_one_eq_mod _ 8
    have hshift : crc.toNat >>> ((8 : UInt16).toNat % 16) &&& (0xFF : UInt16).toNat = crc.toNat / 2 ^ 8 % 2 ^ 8 := hmask
    rw [hshift]
    omega
  simp only [List.flatMap_cons, List.flatMap_nil, List.append_nil, hlow, hhigh]
  rw [lsbBits_mod]
  exact (lsbBits_add 8 8 crc.toNat).symm

/-- **The check sum is the bitwise one, and its residue is constant**: on whole bytes `crc_16_l_calc` is the reflected
check with the polynomial 0x8408, from all ones and inverted at the end; on a request with the check sum that
`diag_qsr4_append_crc16` puts behind it, it is 0x0F47. -/
theorem crc16LCalc_bitwise :
    (∀ bytes : List UInt8, (crc16LCalc bytes (8 * bytes.length)).toBitVec = ~~~crcBytes 0x8408#16 0xFFFF#16 bytes) ∧
      ∀ payload rest : List UInt8,
        crc16LCalc (diagQsr4AppendCrc16 (payload ++ rest) payload.length).1 (8 * (payload.length + 2)) = 0x0F47 := by
  constructor
  · intro bytes
    rw [crc16LCalc_bytes, List.take_length, UInt16.toBitVec_not, foldl_crc16LByte]
    rfl
  · intro payload rest
    set register := payload.foldl crc16LByte crc16LSeed with hregister
    have hcrc : crc16LCalc (payload ++ rest) (payload.length * 8) = ~~~register := by
      rw [Nat.mul_comm, crc16LCalc_bytes, List.take_left]
    have hfront : (diagQsr4AppendCrc16 (payload ++ rest) payload.length).1.take (payload.length + 2) =
        payload ++ [(~~~register &&& 0xFF).toUInt8, (~~~register >>> 8 &&& 0xFF).toUInt8] := by
      simp [diagQsr4AppendCrc16, hcrc, overwrite, List.take_append]
    -- the register behind the check sum is the one of the residue
    have hresidue : ([(~~~register &&& 0xFF).toUInt8, (~~~register >>> 8 &&& 0xFF).toUInt8].foldl crc16LByte
        register).toBitVec = (~~~(0x0F47 : UInt16)).toBitVec := by
      rw [foldl_crc16LByte, crcBytes, bits_crc16, UInt16.toNat, UInt16.toBitVec_not, crcBits_complement]
      decide +kernel
    rw [crc16LCalc_bytes, hfront, List.foldl_append, ← hregister, UInt16.toBitVec_inj.mp hresidue, UInt16.not_not]

end QLog.Qsr4
