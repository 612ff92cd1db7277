/-! The cyclic redundancy check of 32 bits, lowest bit first, with the polynomial of Ethernet. -/
namespace FlightTrace
namespace Crc32

abbrev Register := BitVec 32

def shift (r : Register) : Register :=
  if r.getLsbD 0 then (r >>> 1) ^^^ 0xedb88320#32 else r >>> 1

def step (r : Register) (b : UInt8) : Register :=
  shift (shift (shift (shift (shift (shift (shift (shift (r ^^^ b.toBitVec.setWidth 32))))))))

def checksum (bs : List UInt8) : Nat := (~~~ bs.foldl step (~~~ 0#32)).toNat

theorem checksum_lt (bs : List UInt8) : checksum bs < 0x100000000 := (~~~ bs.foldl step (~~~ 0#32)).isLt

end Crc32
end FlightTrace
