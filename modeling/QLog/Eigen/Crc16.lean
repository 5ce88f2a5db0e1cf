import QLog.Eigen.Dump
import QLog.Library.Crc

/-! # The check sum of the Eigen messages

`CRC16` takes a byte in two halves, each with a table of 16 constants. Both together do what eight shifts of the
register do, so that it is a bitwise check, and goes on over a text in parts. -/

namespace QLog.Eigen

open Library

/-- The table holds the registers after four shifts. -/
theorem crcTable_wCRCTalbeAbs : CrcTable 0xA001#16 4 fun i => (wCRCTalbeAbs.getD i 0).toBitVec := by
  unfold CrcTable
  decide

/-- A round for half a byte does its four bits. -/
theorem crcHalf_toBitVec (wCRC : UInt16) (half : UInt8) :
    (crcHalf wCRC half).toBitVec = crcBits 0xA001#16 wCRC.toBitVec (lsbBits 4 half.toNat) := by
  have hindex : ((half.toUInt16 ^^^ wCRC) &&& 15).toNat = (wCRC.toNat ^^^ half.toNat) % 2 ^ 4 := by
    rw [UInt16.toNat_and, UInt16.toNat_xor, UInt8.toNat_toUInt16, Nat.xor_comm]
    exact Nat.and_two_pow_sub_one_eq_mod _ 4
  rw [crcBits_eq_table _ (by decide) crcTable_wCRCTalbeAbs, crcHalf, UInt16.toBitVec_xor, hindex]
  rfl

/-- Both halves make up the byte. -/
theorem crcHalf_crcHalf (wCRC : UInt16) (b : UInt8) :
    (crcHalf (crcHalf wCRC b) (b >>> 4)).toBitVec = crcBits 0xA001#16 wCRC.toBitVec (lsbBits 8 b.toNat) := by
  have hhigh : (b >>> 4).toNat = b.toNat / 2 ^ 4 := Nat.shiftRight_eq_div_pow _ 4
  rw [crcHalf_toBitVec, crcHalf_toBitVec, hhigh, ← crcBits_append, ← lsbBits_add]

/-- The check sum of a whole message. -/
theorem crc16_toBitVec (seed : UInt16) (bytes : List UInt8) (h : bytes.length < 65536) :
    (crc16 seed bytes bytes.length).toBitVec = crcBytes 0xA001#16 seed.toBitVec bytes := by
  have hmod : bytes.length % 2 ^ 16 = bytes.length := Nat.mod_eq_of_lt h
  rw [crc16, hmod, List.take_length]
  exact crcBytes_foldl _ crcHalf_crcHalf seed bytes

/-- **The check sum is the bitwise one**: it is the reflected check with the polynomial 0xA001 from the given seed, and
over a text in two parts the one of the second part from that of the first. -/
theorem crc16_bitwise (seed : UInt16) (bytes bytes' : List UInt8) (h : (bytes ++ bytes').length < 65536) :
    (crc16 seed bytes bytes.length).toBitVec = crcBytes 0xA001#16 seed.toBitVec bytes ∧
      crc16 seed (bytes ++ bytes') (bytes ++ bytes').length =
        crc16 (crc16 seed bytes bytes.length) bytes' bytes'.length := by
  have hlength : bytes.length + bytes'.length < 65536 := by rwa [List.length_append] at h
  have hfirst := crc16_toBitVec seed bytes (by omega)
  refine ⟨hfirst, UInt16.toBitVec_inj.mp ?_⟩
  rw [crc16_toBitVec seed _ h, crc16_toBitVec _ _ (by omega), hfirst, crcBytes_append]

/-- A text of nine bytes, in two parts. -/
theorem crc16_bitwise_nineDigits :
    (crc16 0xFFFF [0x31, 0x32, 0x33, 0x34] 4).toBitVec = crcBytes 0xA001#16 0xFFFF#16 [0x31, 0x32, 0x33, 0x34] ∧
      crc16 0xFFFF [0x31, 0x32, 0x33, 0x34, 0x35, 0x36, 0x37, 0x38, 0x39] 9 =
        crc16 (crc16 0xFFFF [0x31, 0x32, 0x33, 0x34] 4) [0x35, 0x36, 0x37, 0x38, 0x39] 5 :=
  crc16_bitwise 0xFFFF [0x31, 0x32, 0x33, 0x34] [0x35, 0x36, 0x37, 0x38, 0x39] (by decide)

end QLog.Eigen
