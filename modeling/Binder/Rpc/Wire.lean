import Binder.Lib.Bytes

/-! RPC binder wire format: addresses, command headers and command bodies. Words
are naturals below the width of their field. -/
namespace Binder.Rpc
open Binder.Lib

def wireAddressOptionCreated : ℕ := 1
def wireAddressOptionForServer : ℕ := 2

structure RpcWireAddress where
  options : ℕ
  address : ℕ
  deriving DecidableEq, Repr

namespace RpcWireAddress

/-- `options` is the low word of the raw address. -/
def fromRaw (raw : ℕ) : RpcWireAddress := ⟨raw % 2 ^ 32, raw / 2 ^ 32⟩

def toRaw (addr : RpcWireAddress) : ℕ := addr.options + addr.address * 2 ^ 32

end RpcWireAddress

/-- The options `onBinderEntering` knows about, and the complement it rejects. -/
def kKnownOptions : ℕ := wireAddressOptionCreated ||| wireAddressOptionForServer
def unknownOptions : ℕ := 2 ^ 32 - 1 - kKnownOptions

def ForServer (raw : ℕ) : Prop :=
  (RpcWireAddress.fromRaw raw).options &&& wireAddressOptionForServer ≠ 0
deriving Decidable

def commandTransact : ℕ := 0
def commandDecStrong : ℕ := 2

def sizeofWireHeader : ℕ := 16
def sizeofDecStrong : ℕ := 16
def sizeofWireTransaction : ℕ := 40

def flagOneway : ℕ := 1

structure RpcWireHeader where
  command : ℕ
  bodySize : ℕ
  deriving DecidableEq, Repr

structure RpcWireTransaction where
  address : ℕ
  code : ℕ
  flags : ℕ
  asyncNumber : ℕ
  data : List UInt8
  deriving DecidableEq, Repr

structure RpcDecStrong where
  address : ℕ
  amount : ℕ
  deriving DecidableEq, Repr

def RpcWireTransaction.oneway (t : RpcWireTransaction) : Bool := t.flags &&& flagOneway ≠ 0

def RpcWireTransaction.size (t : RpcWireTransaction) : ℕ := sizeofWireTransaction + t.data.length

def word (bs : List UInt8) (offset width : ℕ) : ℕ := leNat ((bs.drop offset).take width)

def RpcWireHeader.decode (bs : List UInt8) : RpcWireHeader := ⟨word bs 0 4, word bs 4 4⟩

/-- The four reserved words before `data` are never read. -/
def RpcWireTransaction.decode (bs : List UInt8) : RpcWireTransaction :=
  ⟨word bs 0 8, word bs 8 4, word bs 12 4, word bs 16 8, bs.drop sizeofWireTransaction⟩

def RpcDecStrong.decode (bs : List UInt8) : RpcDecStrong := ⟨word bs 0 8, word bs 8 4⟩

def RpcWireHeader.encode (h : RpcWireHeader) : List UInt8 :=
  leBytes 4 h.command ++ leBytes 4 h.bodySize ++ leBytes 8 0

def RpcWireTransaction.encode (t : RpcWireTransaction) : List UInt8 :=
  leBytes 8 t.address ++ leBytes 4 t.code ++ leBytes 4 t.flags ++ leBytes 8 t.asyncNumber ++ leBytes 16 0 ++ t.data

def RpcDecStrong.encode (d : RpcDecStrong) : List UInt8 :=
  leBytes 8 d.address ++ leBytes 4 d.amount ++ leBytes 4 0

end Binder.Rpc
