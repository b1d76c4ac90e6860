import Relational.Error

/-!
# Row channels

A channel keeps accepted rows and errors in the order in which they were sent. A sender whose
item exceeds the capacity waits until a reception releases it; waiting senders are released in
the order in which they began to wait. A cancellation is final for both ends.
-/
namespace Relational

structure Channel where
  capacity : Nat
  queue : List (Except Error Row) := []
  senders : List Nat := [0]
  /-- The senders that wait; one that has been closed keeps its place. -/
  waiting : List Nat := []
  nextSender : Nat := 1
  receiving : Bool := true
  cancelled : Bool := false

namespace Channel

def ofCapacity (n : Nat) : Channel := { capacity := max n 1 }

inductive Progress
  | done | pending
  deriving DecidableEq

inductive Reception
  | item (outcome : Except Error Row)
  | ended
  | pending

def accept (c : Channel) (sender : Nat) (item : Except Error Row) : Channel :=
  let queue := c.queue ++ [item]
  { c with queue, waiting := if queue.length > c.capacity then c.waiting ++ [sender] else c.waiting }

def isWaiting (c : Channel) (sender : Nat) : Bool := c.waiting.contains sender

/-- A sender that waits has to send the row again; one that waits afterwards has sent it. -/
def send (c : Channel) (sender : Nat) (row : Row) : Except Error (Progress × Channel) :=
  if c.cancelled then .error .cancelled
  else if !c.receiving then .error (.execution .receiverGone)
  else if c.isWaiting sender then .ok (.pending, c)
  else
    let c := c.accept sender (.ok row)
    .ok (if c.isWaiting sender then .pending else .done, c)

def sendError (c : Channel) (sender : Nat) (error : Error) : Bool × Channel :=
  if c.receiving && !c.isWaiting sender then (true, c.accept sender (.error error)) else (false, c)

def addSender (c : Channel) : Nat × Channel :=
  (c.nextSender, { c with senders := c.nextSender :: c.senders, nextSender := c.nextSender + 1 })

def closeSender (c : Channel) (sender : Nat) : Channel :=
  { c with senders := c.senders.filter (· != sender) }

/-- The oldest item, which releases one sender. The end comes once every sender is closed. -/
def receive (c : Channel) : Reception × Channel :=
  if c.cancelled then (.item (.error .cancelled), c)
  else
    match c.queue with
    | item :: rest => (.item item, { c with queue := rest, waiting := c.waiting.drop 1 })
    | [] => (if c.senders.isEmpty then .ended else .pending, c)

def closeReceiver (c : Channel) : Channel := { c with receiving := false, queue := [], waiting := [] }

def describe (c : Channel) (width : Nat) : String :=
  s!"RowStream \x7b fields: {width}, cancelled: {c.cancelled} \x7d"

def cancel (c : Channel) : Channel := { c with cancelled := true }

def collect (c : Channel) : Except Error (Option (List Row)) :=
  if c.cancelled then .error .cancelled
  else do
    let rows ← c.queue.mapM id
    return if c.senders.isEmpty then some rows else none

end Channel
end Relational
