import Mathlib.Data.List.GetD
import UDPing.Lib.Serial
import UDPing.Protocol.Packet

/-!
# Client processes and their GUIDs

`generateGuid` draws the characters of a GUID from the process's stream of `rand()` values. The
stream is a function of the seed only: it is a parameter, and two processes with equal seeds draw
equal GUIDs.
-/

namespace UDPing.Client

open Lib

/-- Source: `clientsession.cc`, `hexdigits`. Kind: D -/
def hexdigits : Bytes := ascii "0123456789abcdef"

/-- The characters drawn from the stream `rand`, of which `pos` values have been used already.
Source: `clientsession.cc`, `generateGuid`
Kind: D -/
def generateGuid (rand : ℕ → ℕ) (pos buflen : ℕ) : Bytes :=
  (List.range buflen).map fun ix => hexdigits.getD (rand (pos + ix) % 16) 0

@[simp] theorem length_generateGuid (rand : ℕ → ℕ) (pos buflen : ℕ) :
    (generateGuid rand pos buflen).length = buflen := by
  simp [generateGuid]

/-- A GUID is made of hexadecimal digits. Source: `clientsession.cc`, `generateGuid`. Kind: L -/
theorem mem_hexdigits_of_mem_generateGuid {rand : ℕ → ℕ} {pos buflen : ℕ} {b : UInt8}
    (hb : b ∈ generateGuid rand pos buflen) : b ∈ hexdigits := by
  obtain ⟨ix, -, rfl⟩ := List.mem_map.mp hb
  have hlt : rand (pos + ix) % 16 < hexdigits.length := Nat.mod_lt _ (by decide)
  rw [List.getD_eq_getElem _ _ hlt]
  exact List.getElem_mem hlt

/-- A client process on a host.
Source: `client.cc`, `main`
Kind: D -/
structure ClientProcess where
  /-- The host's name or address, as the server sees it. -/
  peer : Bytes
  /-- `time(0)` when the seed is set. -/
  time : Time
  /-- `getpid()`. -/
  pid : ℕ

/-- `srand(time(0) + getpid())`: the seed is an `unsigned int`.
Source: `client.cc`, `main`
Kind: D -/
def ClientProcess.seed (c : ClientProcess) : UInt32 := Serial.ofTrue (c.time + c.pid)

/-- The GUID of the `ix`-th port of the process when it starts, for the C library's streams `rand`:
the constructors of the ports' sessions draw from the stream one after the other.
Source: `clientsession.cc`, `ClientSessionList::ClientSessionList`, `ClientSession::ClientSession`
Kind: D -/
def ClientProcess.firstGuid (rand : UInt32 → ℕ → ℕ) (c : ClientProcess) (ix : ℕ) : Bytes :=
  generateGuid (rand c.seed) (maxGuid * ix) maxGuid

end UDPing.Client
