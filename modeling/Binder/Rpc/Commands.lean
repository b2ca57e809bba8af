import Binder.Rpc.Process

/-! Commands as bytes. -/
namespace Binder.Rpc
open Lib List

/-- What `transactAddress` and `sendDecStrongToTarget` send, with every field in the range of its type
and no larger than the receiver allocates. -/
inductive Command
  | transact (t : RpcWireTransaction)
      (fields : t.address < 2 ^ 64 ∧ t.code < 2 ^ 32 ∧ t.flags < 2 ^ 32 ∧ t.asyncNumber < 2 ^ 64)
      (size : t.size ≤ kMaxTransactionAllocation)
  | decStrong (d : RpcDecStrong) (fields : d.address < 2 ^ 64 ∧ d.amount < 2 ^ 32)

namespace Command

def header : Command → RpcWireHeader
  | .transact t _ _ => ⟨commandTransact, t.size⟩
  | .decStrong _ _ => ⟨commandDecStrong, sizeofDecStrong⟩

def body : Command → List UInt8
  | .transact t _ _ => t.encode
  | .decStrong d _ => d.encode

def encode (c : Command) : List UInt8 := c.header.encode ++ c.body

def action (call : ℕ) : Command → Action
  | .transact t _ _ => .recvTransact t call
  | .decStrong d _ => .recvDecStrong d.address d.amount

theorem length_body (c : Command) : c.body.length = c.header.bodySize := by
  cases c with
  | transact t => simp +arith [body, header, RpcWireTransaction.encode, RpcWireTransaction.size, sizeofWireTransaction]
  | decStrong d => simp [body, header, RpcDecStrong.encode, sizeofDecStrong]

theorem bodySize_le (c : Command) : c.header.bodySize ≤ kMaxTransactionAllocation := by
  cases c with
  | transact t _ hsize => exact hsize
  | decStrong d => simp [header, sizeofDecStrong, kMaxTransactionAllocation]

theorem decode_header (c : Command) (bs : List UInt8) : RpcWireHeader.decode (c.header.encode ++ bs) = c.header := by
  have hsize := c.bodySize_le.trans_lt (by decide : _ < 2 ^ 32)
  have hcode : c.header.command < 2 ^ 32 := by cases c <;> simp [header, commandTransact, commandDecStrong]
  generalize c.header = h at hsize hcode
  cases h
  simpa [RpcWireHeader.decode, RpcWireHeader.encode, word, drop_append] using ⟨hcode, hsize⟩

theorem commandAction_header (c : Command) (call : ℕ) : commandAction c.header c.body call = some (c.action call) := by
  have hmax := c.bodySize_le
  have hlen := c.length_body
  unfold commandAction
  cases c with
  | transact t h =>
    have hdec : .decode t.encode = t := by
      cases t
      simpa [RpcWireTransaction.decode, RpcWireTransaction.encode, word, drop_append, drop_of_length_le,
        sizeofWireTransaction] using h
    simp_all [header, body, action, RpcWireTransaction.size]
  | decStrong d h =>
    have hdec : .decode d.encode = d := by
      cases d
      simpa [RpcDecStrong.decode, RpcDecStrong.encode, word, drop_append] using h
    simp_all [header, body, action, commandDecStrong, commandTransact]

end Command

/-- `getAndExecuteCommand` `n` times: a header, then as many bytes as it announces. -/
def getCommands (call : ℕ) : ℕ → List UInt8 → Option (List Action × List UInt8)
  | 0, bs => some ([], bs)
  | n + 1, bs => do
    guard (sizeofWireHeader ≤ bs.length)
    let header := RpcWireHeader.decode bs
    let bs := bs.drop sizeofWireHeader
    let a ← commandAction header (bs.take header.bodySize) call
    guard (a ≠ .beginShutdown)
    let (as, bs) ← getCommands call n (bs.drop header.bodySize)
    return (a :: as, bs)

/-- Commands sent in a row are received as they were sent: none runs into the next one. -/
theorem getCommands_encode (call : ℕ) (cs : List Command) (bs : List UInt8) :
    getCommands call cs.length (cs.flatMap Command.encode ++ bs) = some (cs.map (Command.action call), bs) := by
  induction cs with
  | nil => rfl
  | cons c cs ih =>
    have hlen : c.header.encode.length = sizeofWireHeader := by simp [RpcWireHeader.encode, sizeofWireHeader]
    simp only [length_cons, flatMap_cons, Command.encode, append_assoc, getCommands, c.decode_header, ← hlen, drop_left,
      ← c.length_body, take_left, c.commandAction_header]
    cases c <;> simp [Command.action, ih]

end Binder.Rpc
