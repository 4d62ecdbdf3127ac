import NetProg.Socks.Rules

/-!
# The destination of a CONNECT request

`ConnectMode` keeps the first eight bytes of the message, prints the address bytes
in dotted decimal and the port bytes as one number, and turns both texts back into
an endpoint when it connects. The reply to a granted request repeats the port and
the address bytes.

Addresses are printed and read by the address library. What is relied on is that
it prints dotted decimal and reads back what it prints.
-/

namespace NetProg.Socks

/-- An IPv4 address. -/
structure Address where
  a : UInt8
  b : UInt8
  c : UInt8
  d : UInt8
  deriving DecidableEq

/-- Four numbers separated by dots, as `sprintf` prints `%u.%u.%u.%u`. -/
def dotted (address : Address) : Str :=
  decimal address.a.toNat ++ str "." ++ decimal address.b.toNat ++ str "." ++
    decimal address.c.toNat ++ str "." ++ decimal address.d.toNat

/-- `address::to_string` and `address::from_string`, which throws on other texts. What is relied
on is the text with four numbers and dots between them, which is read back as the address. -/
structure AddressText where
  toText : Address → Str
  fromText : Str → Option Address
  toText_dotted : ∀ address, toText address = dotted address
  fromText_dotted : ∀ address, fromText (dotted address) = some address

theorem octet_decimal (byte : UInt8) : octet (decimal byte.toNat) = byte := by
  have small := byte.toNat_lt
  have value : (atoi (decimal byte.toNat) % 256).toNat = byte.toNat := by
    rw [atoi_decimal]
    omega
  rw [octet, value]
  simp

/-- A number below 256 printed without leading zeros. -/
def partByte (part : Str) : Option UInt8 :=
  if part = decimal (octet part).toNat then some (octet part) else none

/-- Four such numbers between dots. -/
def readDotted (text : Str) : Option Address :=
  match (text.splitOn 46).map partByte with
  | [some a, some b, some c, some d] => some ⟨a, b, c, d⟩
  | _ => none

theorem readDotted_dotted (address : Address) : readDotted (dotted address) = some address := by
  have noDot (n : Nat) : (46 : UInt8) ∉ decimal n := by
    intro member
    exact absurd ((decimal_digits n).2.1 46 member) (by decide)
  have whole : dotted address = decimal address.a.toNat ++ 46 :: (decimal address.b.toNat ++
      46 :: (decimal address.c.toNat ++ 46 :: decimal address.d.toNat)) := by
    simp [dotted, str]
  have part (byte : UInt8) : partByte (decimal byte.toNat) = some byte := by
    rw [partByte, octet_decimal, if_pos rfl]
  rw [readDotted, whole, List.splitOn_append_cons_self_of_not_mem (noDot _),
    List.splitOn_append_cons_self_of_not_mem (noDot _),
    List.splitOn_append_cons_self_of_not_mem (noDot _), List.splitOn_eq_singleton (noDot _)]
  simp only [List.map_cons, List.map_nil, part]

/-- An address library that reads nothing but dotted decimal. -/
def addressText : AddressText := ⟨dotted, readDotted, fun _ => rfl, readDotted_dotted⟩

/-- What a `ConnectMode` keeps of the request: `browser_message`, `out_addr` and
`out_port`. -/
structure ConnectMode where
  browserMessage : Str
  outAddr : Str
  outPort : Str

/-- The constructor of `ConnectMode`, on the message of the session. -/
def connectMode (message : Str) : ConnectMode where
  browserMessage := message.take 8
  outAddr := dotted ⟨message.getD 4 0, message.getD 5 0, message.getD 6 0, message.getD 7 0⟩
  outPort := decimal ((message.getD 2 0).toNat * 256 + (message.getD 3 0).toNat : Nat)

/-- The endpoint of `do_connect`. -/
def dstEndpoint (library : AddressText) (request : ConnectMode) : Option (Address × UInt16) :=
  (library.fromText request.outAddr).map
    (fun address => (address, (atoi request.outPort % 65536).toNat.toUInt16))

/-- The bytes of `reply_to_browser` in `connect_handler`. -/
def replyToBrowser (request : ConnectMode) : Str :=
  [0, 90] ++ (request.browserMessage.drop 2).take 6

end NetProg.Socks
