import NetProg.Environment
import NetProg.Socks.Connect
import NetProg.Socks.Session

/-!
# The CONNECT request of the console

The console of the proxied shells sends the proxy eight bytes for the endpoint of a
shell. It takes the address from its dotted text, cut at the dots one part after
the other, and the port in two bytes. The proxy gets back from these bytes the
endpoint the console means, for every address and port.
-/

namespace NetProg.Console

open Socks

/-- One pass of the loop of `handle_connect` over `temp_ip`: the text before the
first dot, and what is left behind it. Where `find` returns `npos` the whole text is
assigned and nothing is erased. -/
def cutAtDot (tempIp : Str) : Str × Str :=
  match findFirst (str ".") tempIp with
  | some k => (tempIp.take k, tempIp.drop (k + 1))
  | none => (tempIp, tempIp)

/-- The parts of `dst_ip` that are left to read. -/
def dstIp : Nat → Str → Str
  | 0, _ => []
  | left + 1, tempIp => octet (cutAtDot tempIp).1 :: dstIp left (cutAtDot tempIp).2

/-- `socks_message`, as `handle_connect` fills it for an endpoint. -/
def socksMessage (library : AddressText) (address : Address) (port : UInt16) : Str :=
  [4, 1, (port.toNat / 256).toUInt8, (port.toNat % 256).toUInt8] ++
    dstIp 4 (library.toText address ++ str ".")

/-- The first dot behind a text without one. -/
theorem findFirst_dot {part : Str} (solid : ∀ c ∈ part, isdigit c = true) (rest : Str) :
    findFirst (str ".") (part ++ str "." ++ rest) = some part.length := by
  induction part with
  | nil => simp [str, findFirst]
  | cons c more ih =>
    have other : c ≠ 46 := by
      rintro rfl
      exact absurd (solid 46 List.mem_cons_self) (by decide)
    have later := ih (fun d member => solid d (List.mem_cons_of_mem c member))
    have apart : (str ".").isPrefixOf (c :: (more ++ str "." ++ rest)) = false := by
      simp [str, List.isPrefixOf, other.symm]
    rw [List.cons_append, List.cons_append, findFirst, apart, later]
    simp

/-- A pass over a text that starts with a printed byte reads that byte. -/
theorem dstIp_decimal (left : Nat) (byte : UInt8) (rest : Str) :
    dstIp (left + 1) (decimal byte.toNat ++ str "." ++ rest) = byte :: dstIp left rest := by
  have cut : cutAtDot (decimal byte.toNat ++ str "." ++ rest) = (decimal byte.toNat, rest) := by
    have whole : decimal byte.toNat ++ str "." ++ rest = decimal byte.toNat ++ 46 :: rest := by
      simp [str]
    rw [cutAtDot, findFirst_dot (decimal_digits byte.toNat).2.1 rest, whole]
    simp
  rw [dstIp, cut, octet_decimal]

/-- The message, byte by byte. -/
theorem socksMessage_eq (library : AddressText) (address : Address) (port : UInt16) :
    socksMessage library address port =
      [4, 1, (port.toNat / 256).toUInt8, (port.toNat % 256).toUInt8, address.a, address.b,
        address.c, address.d] := by
  have parts : dstIp 4 (library.toText address ++ str ".") =
      [address.a, address.b, address.c, address.d] := by
    have last : dotted address ++ str "." = decimal address.a.toNat ++ str "." ++
        (decimal address.b.toNat ++ str "." ++ (decimal address.c.toNat ++ str "." ++
          (decimal address.d.toNat ++ str "." ++ []))) := by
      simp only [dotted, List.append_assoc, List.append_nil]
    rw [library.toText_dotted, last, dstIp_decimal 3, dstIp_decimal 2, dstIp_decimal 1,
      dstIp_decimal 0, dstIp]
  rw [socksMessage, parts]
  rfl

/-- The two bytes of a port are read back as that port. -/
theorem port_bytes (port : UInt16) :
    (port.toNat / 256).toUInt8.toNat * 256 + (port.toNat % 256).toUInt8.toNat = port.toNat := by
  have small := port.toNat_lt
  simp only [Nat.toUInt8, UInt8.toNat_ofNat']
  omega

/-- For every endpoint: the proxy reads the console's request as a CONNECT request of version 4
for the endpoint it was made for, whatever follows it in the buffer, and repeats its port and
address bytes in the reply to a granted request.

The text of the address is read back by the library that wrote it, and the port, which is cut in
two bytes, put together and written in decimal, is the number that it was. -/
theorem socks_request_round_trip (library : AddressText) (address : Address) (port : UInt16)
    (rest : Str) :
    let message := socksMessage library address port
    message.length = 8 ∧ message.getD 0 0 = 4 ∧ message.getD 1 0 = 1 ∧
      relayMode (message.getD 1 0) = .connect ∧
      dstEndpoint library (connectMode (message ++ rest)) = some (address, port) ∧
      (connectMode (message ++ rest)).outAddr = dotted address ∧
      replyToBrowser (connectMode (message ++ rest)) = [0, 90] ++ message.drop 2 := by
  intro message
  have bytes : message = [4, 1, (port.toNat / 256).toUInt8, (port.toNat % 256).toUInt8, address.a,
      address.b, address.c, address.d] := socksMessage_eq library address port
  have outAddr : (connectMode (message ++ rest)).outAddr = dotted address := by
    rw [bytes]
    rfl
  have outPort : (connectMode (message ++ rest)).outPort = decimal port.toNat := by
    rw [← port_bytes port, bytes]
    rfl
  have small := port.toNat_lt
  have number : (atoi (decimal port.toNat) % 65536).toNat.toUInt16 = port := by
    have value : (atoi (decimal port.toNat) % 65536).toNat = port.toNat := by
      rw [atoi_decimal]
      omega
    rw [value]
    simp
  refine ⟨by rw [bytes]; rfl, by rw [bytes]; rfl, by rw [bytes]; rfl, by rw [bytes]; rfl, ?_,
    outAddr, by rw [bytes]; rfl⟩
  rw [dstEndpoint, outAddr, outPort, library.fromText_dotted, number]
  rfl

/-- The endpoint 140.113.17.5:7001, with addresses written as dotted quads, and the rest of the
proxy's buffer behind the request. -/
theorem socks_request_round_trip_seventeen :
    socksMessage addressText ⟨140, 113, 17, 5⟩ 7001 = [4, 1, 27, 89, 140, 113, 17, 5] ∧
    dstEndpoint addressText
        (connectMode (socksMessage addressText ⟨140, 113, 17, 5⟩ 7001 ++ List.replicate 1016 0)) =
      some (⟨140, 113, 17, 5⟩, 7001) := by
  have message : socksMessage addressText ⟨140, 113, 17, 5⟩ 7001 =
      [4, 1, 27, 89, 140, 113, 17, 5] := by decide +kernel
  obtain ⟨-, -, -, -, endpoint, -⟩ :=
    socks_request_round_trip addressText ⟨140, 113, 17, 5⟩ 7001 (List.replicate 1016 0)
  exact ⟨message, endpoint⟩

end NetProg.Console
