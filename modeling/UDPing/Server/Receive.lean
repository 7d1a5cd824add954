import UDPing.Protocol.Layout
import UDPing.Server.Manager

/-!
# Receiving a datagram

`readNextPacket` (`serversession.cc`): a datagram goes into a buffer of `MAXBUF` bytes that still
holds what was there before, is checked, and what is accepted is handed to `receivePing`.
-/

namespace UDPing.Server

open Lib
open Std (ExtTreeMap)

/-- A datagram as `recvfrom` delivers it. Source: `recvfrom`. Kind: D -/
structure Datagram where
  payload : Bytes
  /-- `sin_addr.s_addr`. -/
  addr : UInt32
  /-- `ntohs(sin_port)`. -/
  port : UInt16

/-- What `recvfrom` returns and makes of the buffer: at most `MAXBUF` bytes of the datagram.
Source: `recvfrom`
Kind: D -/
def recvfrom (buf : Mem) : Option Datagram → ℤ × Mem
  | none => (-1, buf)
  | some d =>
    let received := d.payload.take maxBuf
    (received.length, buf.store 0 received)

/-- What becomes of a datagram: a warning, or a call of `receivePing` with these arguments.
Source: `serversession.cc`, `ServerSessionManager::readNextPacket`
Kind: D -/
inductive Reading where
  /-- "Error receiving data" -/
  | failed
  /-- "Malformed packet - size %d is less than header size %ld" -/
  | short (n : ℤ) (sizeofPacket : ℕ)
  /-- "Malformed packet - expected %d, got %d" -/
  | wrongSize (size : UInt32) (n : ℤ)
  /-- "Incorrect protocol version.  Expected %d, got %d" -/
  | wrongVersion (protoVersion : UInt8)
  /-- `receivePing (ph, &tv, hostName, port)` -/
  | ping (a : Arrival)
  deriving DecidableEq

/-- The name of a host: the one in `hostMap`, or the one it resolves to, which is kept.
Source: `serversession.cc`, `ServerSessionManager::readNextPacket`
Kind: D
Fidelity: `resolve` stands for `gethostbyaddr` and `inet_ntoa` -/
def hostNameOf (resolve : UInt32 → Bytes) (hostMap : ExtTreeMap UInt32 Bytes) (addr : UInt32) :
    Bytes × ExtTreeMap UInt32 Bytes :=
  let hostName := hostMap[addr]?.getD []
  if hostName = [] then (resolve addr, hostMap.insert addr (resolve addr)) else (hostName, hostMap)

/-- One datagram, with the receive time `tv` and the clock reading `stamp` of `receivePing`.
Source: `serversession.cc`, `ServerSessionManager::readNextPacket`
Kind: D
Fidelity: `n` is compared as a `size_t` and as a `uint32_t` -/
def readNextPacket (A : Abi) (resolve : UInt32 → Bytes) (hostMap : ExtTreeMap UInt32 Bytes)
    (buf : Mem) (d : Option Datagram) (tv : Timespec) (stamp : Time) :
    Reading × ExtTreeMap UInt32 Bytes :=
  let (n, buf) := recvfrom buf d
  let ph := A.packet buf maxBuf
  if n < 0 then (.failed, hostMap)
  else if (n % 2 ^ 64).toNat < A.sizeofPacket then (.short n A.sizeofPacket, hostMap)
  else if UInt32.ofInt n ≠ ph.size then (.wrongSize ph.size n, hostMap)
  else if ph.protoVersion ≠ protoVersion then (.wrongVersion ph.protoVersion, hostMap)
  else
    match d with
    | none => (.failed, hostMap)
    | some d =>
      let (hostName, hostMap) := hostNameOf resolve hostMap d.addr
      (.ping { ph, rcvd := tv, peer := hostName, port := d.port, stamp }, hostMap)

end UDPing.Server
