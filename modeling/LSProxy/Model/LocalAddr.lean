import Mathlib.Data.UInt

/-!
# Local addresses

`next_local_addr` and `connect_TCP` of `ls_proxy.cpp`. Every connection to the server is bound to
an address of its own, `127.0.0.[1-255]` with a port in `[4100-65100]`, so that the proxy is not
held to the ports of one address. `next_local_addr` goes through them, keeping its place in two
static variables; `connect_TCP` tries one after another until `bind` succeeds.

The address is kept in network byte order, and advancing it is written once for each byte order
of the machine, so the order is a parameter here (`ByteOrder`). What an address means, whatever
the machine, is its octets as they lie in memory and its port (`endpoint`).
-/

namespace LSProxy

/-! ### Byte order -/

/-- `__BYTE_ORDER__`. -/
inductive ByteOrder
  | littleEndian
  | bigEndian
  deriving DecidableEq, Repr

/-- The bytes of a 32-bit word in memory, lowest address first. -/
def octets : ByteOrder → UInt32 → List UInt8
  | .littleEndian, x => [UInt8.ofNat x.toNat, UInt8.ofNat (x.toNat / 2 ^ 8),
      UInt8.ofNat (x.toNat / 2 ^ 16), UInt8.ofNat (x.toNat / 2 ^ 24)]
  | .bigEndian, x => [UInt8.ofNat (x.toNat / 2 ^ 24), UInt8.ofNat (x.toNat / 2 ^ 16),
      UInt8.ofNat (x.toNat / 2 ^ 8), UInt8.ofNat x.toNat]

/-- `htonl`. -/
def htonl : ByteOrder → UInt32 → UInt32
  | .littleEndian, x => UInt32.ofNat (x.toNat % 256 * 2 ^ 24 + x.toNat / 2 ^ 8 % 256 * 2 ^ 16 +
      x.toNat / 2 ^ 16 % 256 * 2 ^ 8 + x.toNat / 2 ^ 24)
  | .bigEndian, x => x

/-- `htons`. -/
def htons : ByteOrder → UInt16 → UInt16
  | .littleEndian, x => UInt16.ofNat (x.toNat % 256 * 256 + x.toNat / 256)
  | .bigEndian, x => x

/-- `ntohs`: the same exchange of bytes. -/
def ntohs (order : ByteOrder) (x : UInt16) : UInt16 := htons order x

theorem toNat_htons_littleEndian (x : UInt16) :
    (htons .littleEndian x).toNat = x.toNat % 256 * 256 + x.toNat / 256 := by
  have hx := x.toNat_lt
  simp only [htons]
  rw [UInt16.toNat_ofNat']
  exact Nat.mod_eq_of_lt (by omega)

@[simp] theorem ntohs_htons (order : ByteOrder) (x : UInt16) : ntohs order (htons order x) = x := by
  cases order with
  | littleEndian =>
    have hx := x.toNat_lt
    -- the low byte has become the high one, and the other way round
    have hlow : (x.toNat % 256 * 256 + x.toNat / 256) % 256 = x.toNat / 256 := by omega
    have hhigh : (x.toNat % 256 * 256 + x.toNat / 256) / 256 = x.toNat % 256 := by omega
    apply UInt16.toNat_inj.mp
    rw [ntohs, toNat_htons_littleEndian, toNat_htons_littleEndian, hlow, hhigh]
    omega
  | bigEndian => rfl

/-! ### `next_local_addr` -/

/-- `struct sockaddr_in`, of the family `AF_INET`: port and address in network byte order. -/
structure SockaddrIn where
  sinPort : UInt16
  sAddr : UInt32
  deriving DecidableEq, Repr

/-- What an address is, whatever the byte order of the machine: the four octets, and the port. -/
structure Endpoint where
  host : List UInt8
  port : UInt16
  deriving DecidableEq, Repr

/-- `get_host` and `get_port`. -/
def endpoint (order : ByteOrder) (addr : SockaddrIn) : Endpoint :=
  ⟨octets order addr.sAddr, ntohs order addr.sinPort⟩

/-- The static variables of `next_local_addr`. -/
structure LocalAddr where
  addr : SockaddrIn
  port : UInt16
  deriving DecidableEq, Repr

/-- Their values at the start of the process. -/
def LocalAddr.initial (order : ByteOrder) : LocalAddr :=
  { addr := { sinPort := 0, sAddr := htonl order 0x7f000001 }, port := 4100 }

/-- Advance the address, in network byte order; after the last one comes the first. -/
def advanceIp : ByteOrder → UInt32 → UInt32
  -- past 127.0.0.255 the sum wraps around and skips .0
  | .littleEndian, ip => ip + if ip = 0xff00007f then 0x02000000 else 0x01000000
  | .bigEndian, ip => if ip = 0x7f0000ff then 0x7f000001 else ip + 1

/-- `next_local_addr`: the static variables it leaves, and the address it returns. -/
def nextLocalAddr (order : ByteOrder) (st : LocalAddr) : LocalAddr × SockaddrIn :=
  if 65100 < st.port + 1 then
    -- the ports of this address are used up
    let addr := { sinPort := htons order 4100, sAddr := advanceIp order st.addr.sAddr }
    (⟨addr, 4100⟩, addr)
  else
    let addr := { st.addr with sinPort := htons order (st.port + 1) }
    (⟨addr, st.port + 1⟩, addr)

/-- The states that calls of `next_local_addr` lead to. -/
inductive LocalAddr.Reachable (order : ByteOrder) : LocalAddr → Prop
  | start : Reachable order (.initial order)
  | next {st : LocalAddr} (h : Reachable order st) : Reachable order (nextLocalAddr order st).1

/-! ### `connect_TCP` -/

/-- `total_local_addr`. -/
def totalLocalAddr : ℕ := 255 * (65100 - 4100 + 1)

/-- What `connect_TCP` comes to: a socket bound to `local`, or `-1` after one of two messages. -/
inductive ConnectResult
  | connected (lcAddr : SockaddrIn)
  /-- `bind: Used up all ports!` -/
  | usedUpPorts
  /-- `Cannot connect to %s:%d` -/
  | cannotConnect (lcAddr : SockaddrIn)
  deriving DecidableEq, Repr

/-- The loop of `connect_TCP` with `rounds` rounds to go: the address that `bind` accepts, or
`none` when it has failed in the last round. -/
def bindLoop (order : ByteOrder) (bind : SockaddrIn → Bool) :
    ℕ → LocalAddr → LocalAddr × Option SockaddrIn
  | 0, st => (st, none)
  | rounds + 1, st =>
    let (st', lcAddr) := nextLocalAddr order st
    if bind lcAddr then (st', some lcAddr) else bindLoop order bind rounds st'

/-- `connect_TCP`, on a machine where `bind` does as `bind` says; `connectOk` says whether
`connect` succeeds. -/
def connectTCP (order : ByteOrder) (bind : SockaddrIn → Bool) (connectOk : Bool)
    (st : LocalAddr) : LocalAddr × ConnectResult :=
  let (st', bound) := bindLoop order bind totalLocalAddr st
  match bound with
  | none => (st', .usedUpPorts)
  | some lcAddr => (st', if connectOk then .connected lcAddr else .cannotConnect lcAddr)

/-- On a little-endian machine 127.0.0.255 is followed by 127.0.0.1. -/
example : (octets .littleEndian (advanceIp .littleEndian 0xff00007f)) = [127, 0, 0, 1] := by decide

end LSProxy
