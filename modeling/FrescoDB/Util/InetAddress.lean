import Mathlib

/-! `InetAddress` (`util/net/inetaddress.{h,cc}`): an IPv4 or IPv6 address,
compared through its raw bytes. -/
namespace FrescoDB.Util

/-- `kInetAddressV4Size`, `kInetAddressV6Size`. -/
def kInetAddressV4Size : Nat := 4
def kInetAddressV6Size : Nat := 16

/-- The `boost::asio::ip::address` an `InetAddress` holds. -/
inductive InetAddress where
  | v4 (bytes : List UInt8) (size : bytes.length = kInetAddressV4Size)
  | v6 (bytes : List UInt8) (size : bytes.length = kInetAddressV6Size)
  deriving DecidableEq

namespace InetAddress

/-- `ToBytes`. -/
def toBytes : InetAddress → List UInt8
  | v4 bytes _ => bytes
  | v6 bytes _ => bytes

/-- `operator<`: the raw bytes, as `std::string` compares them. -/
def lt (a b : InetAddress) : Bool := compare a.toBytes b.toBytes = .lt

/-- `FromSlice(slice, size_hint)`. -/
def fromSlice (slice : List UInt8) (sizeHint : Nat) : Except String InetAddress :=
  let expectedSize := if sizeHint = 0 then slice.length else sizeHint
  if hgt : expectedSize > slice.length then
    .error ("Size of slice: " ++ toString slice.length ++ " is smaller than provided size_hint: " ++
      toString expectedSize)
  else if h4 : expectedSize = kInetAddressV4Size then
    .ok (v4 (slice.take kInetAddressV4Size) (by rw [List.length_take]; omega))
  else if h6 : expectedSize = kInetAddressV6Size then
    .ok (v6 (slice.take kInetAddressV6Size) (by rw [List.length_take]; omega))
  else .error ("Size of slice is invalid: " ++ toString expectedSize)

/-- `FromBytes`. -/
def fromBytes (bytes : List UInt8) : Except String InetAddress := fromSlice bytes 0

theorem length_toBytes (a : InetAddress) :
    a.toBytes.length = kInetAddressV4Size ∨ a.toBytes.length = kInetAddressV6Size := by
  cases a with
  | v4 bytes h => exact .inl h
  | v6 bytes h => exact .inr h

theorem fromBytes_toBytes (a : InetAddress) : fromBytes a.toBytes = .ok a := by
  cases a with
  | v4 bytes h =>
    simp [fromBytes, fromSlice, toBytes, h]
  | v6 bytes h =>
    simp [fromBytes, fromSlice, toBytes, h, kInetAddressV4Size, kInetAddressV6Size,
      List.take_of_length_le (le_of_eq h)]

end InetAddress

end FrescoDB.Util
