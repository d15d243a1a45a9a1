import PssClient.Wire.PacketFormat

/-!
# What a client is given

A client is built with a packet formatter, which it calls through `ipacket_format`. The client
modules take the formatter as a parameter, so that their results hold for any of them;
`cpacketFormat` is the one of the example program. The times that a client compares are nanoseconds
of the system clock, and become seconds in an `int`.
-/

namespace PssClient

/-- `ipacket_format`, over the states `F` of the formatter. `none` is undefined behaviour. -/
structure IpacketFormat (F : Type*) where
  formatRecvBuffer (connectId : Nat) (recvBuffer : List UInt8) (pf : F) :
    Option (List CrecvPacket × F)
  formatSendBuffer (connectId : Nat) (commandId : Int16) (buffer : List UInt8)
    (bufferLength formatLength : Nat) (pf : F) : Option (List UInt8 × Nat × F)

/-- `cpacket_format`, which does not look at the connection's id. -/
def cpacketFormat (past : Nat → Option UInt8) : IpacketFormat CpacketFormat where
  formatRecvBuffer _ recvBuffer pf := pf.formatRecvBuffer past recvBuffer
  formatSendBuffer _ commandId buffer bufferLength formatLength pf :=
    pf.formatSendBuffer commandId buffer bufferLength formatLength

/-- The `std::string` that C++ makes of a `const char*`: it ends at the first zero byte. -/
def cStr (s : List UInt8) : List UInt8 := s.takeWhile (· ≠ 0)

/-- What `do_write_format_data` hands to `do_write_immediately`. The data goes through a
`const char*`, and `format_length` starts at zero. -/
def formatted {F : Type*} (fmt : IpacketFormat F) (connectId : Nat) (commandId : Int16)
    (data : List UInt8) (length : Nat) (pf : F) : Option (List UInt8 × F) :=
  (fmt.formatSendBuffer connectId commandId (cStr data) length 0 pf).bind fun r =>
    (CpacketFormat.cStrRead r.1 r.2.1).map fun bytes => (bytes, r.2.2)

namespace IIOClient

/-- `duration_cast<seconds>`. -/
def wholeSeconds (d : Int) : Int := d.tdiv 1000000000

/-- The cast of a count to `int`. -/
def toInt (count : Int) : Int := count.bmod 4294967296

end IIOClient

end PssClient
