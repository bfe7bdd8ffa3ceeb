import Cottage.Net.State

/-!
# Receiving a frame

`net_handle_arp`, `net_handle_ipv4`, `net_handle_icmp` and `net_handle_udp` as
programs that read the frame.  Offset 0 is the start of the frame; `ip` and
`payload` are the offsets the source computes as pointers.  `len` is the 16-bit
length of the frame, which the handlers can ignore: reads beyond it find what
the receive buffer holds there.
-/

namespace Cottage.Net

open ByteReader Reader

/-! ## ARP -/

/-- What `net_handle_arp` does with the fields of the header. -/
def arpReceive (device : Device) (opcode : UInt16) (senderMac : Mac) (senderIp targetIp : Ip4)
    (s : NetState) : NetState :=
  if opcode = arpRequest then
    if targetIp = device.ip4 then
      s.transmit device (arpFrame senderMac device.mac 2 device.ip4 senderMac senderIp)
    else s
  else if opcode = arpReply then
    arpPendingDrain device senderIp senderMac (arpCacheStore senderIp senderMac s)
  else s

def netHandleArp (device : Device) (len : UInt16) (s : NetState) : Reader NetState :=
  if len < 42 then pure s
  else do
    let opcode ← read16 20
    let senderIp ← bytes 28 4
    let senderMac ← bytes 22 6
    let targetIp ← bytes 38 4
    pure (arpReceive device (ntohs opcode) senderMac senderIp targetIp s)

/-! ## ICMP -/

def icmpEchoRequest : UInt8 := 8

def icmpEchoReply : UInt8 := 0

def icmpMessage (cksum : UInt16) (id sequence : Vector UInt8 2) (data : List UInt8) :
    List UInt8 :=
  [icmpEchoReply, 0, (cksum &&& 0xFF).toUInt8, ((cksum >>> 8) &&& 0xFF).toUInt8] ++
    id.toList ++ sequence.toList ++ data

def icmpReply (id sequence : Vector UInt8 2) (data : List UInt8) : List UInt8 :=
  icmpMessage (netChecksum (icmpMessage 0 id sequence data)) id sequence data

/-- The length handed to `transmit` is 16 bits wide. -/
def echoReply (device : Device) (srcMac : Mac) (srcIp : Ip4) (payloadLen : UInt16)
    (id sequence : Vector UInt8 2) (data : List UInt8) : List UInt8 :=
  (ethBuildHeader srcMac device.mac 0x0800 ++ ipv4BuildHeader device.ip4 srcIp 1 payloadLen 64 ++
    icmpReply id sequence data).take (34 + payloadLen).toNat

def netHandleIcmp (device : Device) (ip payload : ℕ) (payloadLen : UInt16) (s : NetState) :
    Reader NetState :=
  if payloadLen < 8 then pure s
  else do
    let type ← read payload
    let _code ← read (payload + 1)
    if type = icmpEchoRequest then do
      let srcIp ← bytes (ip + 12) 4
      let srcMac ← bytes 6 6
      let id ← bytes (payload + 4) 2
      let sequence ← bytes (payload + 6) 2
      let data ← bytes (payload + 8) (payloadLen.toNat - 8)
      pure (s.transmit device (echoReply device srcMac srcIp payloadLen id sequence data.toList))
    else pure s

/-! ## UDP -/

def netHandleUdp (ip payload : ℕ) (payloadLen : UInt16) (s : NetState) : Reader NetState :=
  if payloadLen < 8 then pure s
  else do
    let destPort ← read16 (payload + 2)
    match s.udpPortTable (ntohs destPort) with
    | none => pure s
    | some socket =>
      if (s.sockets socket).pcb.recvQueue.IsFull then pure s
      else do
        let srcIp ← bytes (ip + 12) 4
        let srcPort ← read16 payload
        let data ← bytes (payload + 8) (payloadLen.toNat - 8)
        pure (s.deliver socket ⟨⟨afIpv4, srcPort, le32 srcIp⟩, payloadLen.toNat - 8, data.toList⟩)

/-! ## IPv4 -/

def ipProtoIcmp : UInt8 := 1

def ipProtoUdp : UInt8 := 17

def netHandleIpv4 (device : Device) (len : UInt16) (s : NetState) : Reader NetState :=
  if len < 34 then pure s
  else do
    let ip := ethHeaderLen
    let versionIhl ← read ip
    let version := (versionIhl >>> 4) &&& 0x0F
    let headerLen := (versionIhl &&& 0x0F) * 4
    if version ≠ 4 then pure s
    else do
      let destIp ← bytes (ip + 16) 4
      if destIp ≠ device.ip4 then pure s
      else do
        let payload := ip + headerLen.toNat
        let totalLength ← read16 (ip + 2)
        let payloadLen := ntohs totalLength - headerLen.toUInt16
        let _srcIp ← bytes (ip + 12) 4
        let protocol ← read (ip + 9)
        if protocol = ipProtoIcmp then netHandleIcmp device ip payload payloadLen s
        else if protocol = ipProtoUdp then netHandleUdp ip payload payloadLen s
        else pure s

/-! ## Dispatch -/

/-- The EtherType that `knetwork_thread` finds in the frame. -/
def ethertype (packet : ℕ → UInt8) : UInt16 :=
  ((packet 12).toUInt16 <<< 8) ||| (packet 13).toUInt16

/-- The protocol handler that `knetwork_thread` calls. -/
def handler (packet : ℕ → UInt8) (device : Device) (len : UInt16) (s : NetState) :
    Reader NetState :=
  if ethertype packet = 0x0806 then netHandleArp device len s
  else if ethertype packet = 0x0800 then netHandleIpv4 device len s
  else pure s

end Cottage.Net
