import KafGo.Lib.Bytes

/-!
The CRC-32 with the Castagnoli polynomial and with that of IEEE 802.3, as reflected shift registers.
-/

namespace KafGo.Lib

def crcShift (crc : UInt32) : UInt32 := if crc &&& 1 = 1 then (crc >>> 1) ^^^ 0x82F63B78 else crc >>> 1

def crcByte (crc : UInt32) (b : UInt8) : UInt32 := Nat.repeat crcShift 8 (crc ^^^ b.toUInt32)

def crc32c (bs : Bytes) : UInt32 := bs.foldl crcByte 0xFFFFFFFF ^^^ 0xFFFFFFFF

example : crc32c [49, 50, 51, 52, 53, 54, 55, 56, 57] = 0xE3069283 := by decide +kernel

def crcShiftIEEE (crc : UInt32) : UInt32 := if crc &&& 1 = 1 then (crc >>> 1) ^^^ 0xEDB88320 else crc >>> 1

def crcByteIEEE (crc : UInt32) (b : UInt8) : UInt32 := Nat.repeat crcShiftIEEE 8 (crc ^^^ b.toUInt32)

def checksumIEEE (bs : Bytes) : UInt32 := bs.foldl crcByteIEEE 0xFFFFFFFF ^^^ 0xFFFFFFFF

example : checksumIEEE [49, 50, 51, 52, 53, 54, 55, 56, 57] = 0xCBF43926 := by decide +kernel

end KafGo.Lib
