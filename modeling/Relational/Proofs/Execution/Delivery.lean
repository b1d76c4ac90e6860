import Mathlib.Data.List.Induction
import Relational.Execution.Channel

/-!
# Delivery through row channels

Whatever is done with a channel, by any number of senders and in any order: what its receiver is
given is a prefix of what the channel has accepted, until it is cancelled. From then on either end
is told of the cancellation.
-/
namespace Relational.Channel

abbrev Item := Except Error Row

inductive Operation
  | send (sender : Nat) (row : Row)
  | sendError (sender : Nat) (error : Error)
  | addSender
  | closeSender (sender : Nat)
  | receive
  | closeReceiver
  | cancel

def after (c : Channel) : Operation → Channel
  | .send sender row =>
    match c.send sender row with
    | .ok (_, c) => c
    | .error _ => c
  | .sendError sender error => (c.sendError sender error).2
  | .addSender => c.addSender.2
  | .closeSender sender => c.closeSender sender
  | .receive => c.receive.2
  | .closeReceiver => c.closeReceiver
  | .cancel => c.cancel

/-- The item of a sender that has to wait is accepted if the sender did not wait before. -/
def accepted? (c : Channel) : Operation → Option Item
  | .send sender row =>
    match c.send sender row with
    | .ok (.done, _) => some (.ok row)
    | .ok (.pending, _) => if c.isWaiting sender then none else some (.ok row)
    | .error _ => none
  | .sendError sender error => if (c.sendError sender error).1 then some (.error error) else none
  | _ => none

def received? (c : Channel) : Operation → Option Item
  | .receive =>
    match c.receive.1 with
    | .item item => some item
    | .ended | .pending => none
  | _ => none

def opened? (c : Channel) : Operation → Option Nat
  | .addSender => some c.addSender.1
  | _ => none

def run (c : Channel) (ops : List Operation) : Channel := ops.foldl after c

def along {α : Type} (f : Channel → Operation → Option α) (c : Channel) : List Operation → List α
  | [] => []
  | op :: ops => (f c op).toList ++ along f (c.after op) ops

def accepted (c : Channel) (ops : List Operation) : List Item := along accepted? c ops

def received (c : Channel) (ops : List Operation) : List Item := along received? c ops

def opened (c : Channel) (ops : List Operation) : List Nat := c.senders ++ along opened? c ops

section Run
variable {c : Channel} {ops : List Operation} {op : Operation}

@[simp] theorem run_append : c.run (ops ++ [op]) = (c.run ops).after op := by simp [run]

theorem along_append {α : Type} {f : Channel → Operation → Option α} :
    along f c (ops ++ [op]) = along f c ops ++ (f (c.run ops) op).toList := by
  induction ops generalizing c with
  | nil => simp [along, run]
  | cons first ops ih =>
    rw [List.cons_append, along, along, ih, List.append_assoc]
    rfl

theorem accepted_append :
    c.accepted (ops ++ [op]) = c.accepted ops ++ ((c.run ops).accepted? op).toList := along_append

theorem received_append :
    c.received (ops ++ [op]) = c.received ops ++ ((c.run ops).received? op).toList := along_append

theorem opened_append :
    c.opened (ops ++ [op]) = c.opened ops ++ ((c.run ops).opened? op).toList := by
  simp only [opened, along_append, List.append_assoc]

end Run

section Step
variable {c : Channel} {op : Operation} {item : Item} {row : Row} {error : Error} {sender : Nat}

@[simp] theorem accept_queue : (c.accept sender item).queue = c.queue ++ [item] := rfl

@[simp] theorem accept_senders : (c.accept sender item).senders = c.senders := rfl

@[simp] theorem accept_receiving : (c.accept sender item).receiving = c.receiving := rfl

@[simp] theorem accept_cancelled : (c.accept sender item).cancelled = c.cancelled := rfl

theorem send_of_cancelled (h : c.cancelled = true) : c.send sender row = .error .cancelled := by
  simp [send, h]

theorem send_of_gone (h : c.cancelled = false) (hgone : c.receiving = false) :
    c.send sender row = .error (.execution .receiverGone) := by
  simp [send, h, hgone]

theorem sendError_of_gone (hgone : c.receiving = false) :
    c.sendError sender error = (false, c) := by
  simp [sendError, hgone]

theorem receive_of_cancelled (h : c.cancelled = true) :
    c.receive = (.item (.error .cancelled), c) := by
  simp [receive, h]

/-- What a sender does opens, closes and cancels nothing. The queue grows by what is accepted, while
there is a receiver. -/
structure Offers (c : Channel) (op : Operation) : Prop where
  queue : (c.after op).queue = c.queue ++ (c.accepted? op).toList
  senders : (c.after op).senders = c.senders
  receiving : (c.after op).receiving = c.receiving
  cancelled : (c.after op).cancelled = c.cancelled
  heard : c.receiving = false → c.accepted? op = none

theorem Offers.of_ignored (hnone : c.accepted? op = none) (hafter : c.after op = c) :
    c.Offers op := by
  constructor <;> simp [hnone, hafter]

theorem Offers.of_accepted (sender : Nat) (item : Item) (hreceiving : c.receiving = true)
    (hsome : c.accepted? op = some item) (hafter : c.after op = c.accept sender item) :
    c.Offers op := by
  constructor <;> simp [hsome, hafter, hreceiving]

theorem offers_send : c.Offers (.send sender row) := by
  by_cases hcancelled : c.cancelled = true
  · exact .of_ignored (by simp [accepted?, send, hcancelled]) (by simp [after, send, hcancelled])
  by_cases hreceiving : c.receiving = true
  · by_cases hwaiting : c.isWaiting sender = true
    · exact .of_ignored (by simp [accepted?, send, hcancelled, hreceiving, hwaiting])
        (by simp [after, send, hcancelled, hreceiving, hwaiting])
    · refine .of_accepted sender (.ok row) hreceiving ?_
        (by simp [after, send, hcancelled, hreceiving, hwaiting])
      by_cases hfull : (c.accept sender (.ok row)).isWaiting sender = true <;>
        simp [accepted?, send, hcancelled, hreceiving, hwaiting, hfull]
  · exact .of_ignored (by simp [accepted?, send, hcancelled, hreceiving])
      (by simp [after, send, hcancelled, hreceiving])

theorem offers_sendError : c.Offers (.sendError sender error) := by
  by_cases haccept : (c.receiving && !c.isWaiting sender) = true
  · have hsent : c.sendError sender error = (true, c.accept sender (.error error)) := by
      rw [sendError, if_pos haccept]
    exact .of_accepted sender (.error error) (Bool.and_eq_true_iff.1 haccept).1
      (by simp [accepted?, hsent]) (by simp [after, hsent])
  · have hsent : c.sendError sender error = (false, c) := by rw [sendError, if_neg haccept]
    exact .of_ignored (by simp [accepted?, hsent]) (by simp [after, hsent])

theorem receive_state : c.receive.2.senders = c.senders ∧ c.receive.2.receiving = c.receiving ∧
    c.receive.2.cancelled = c.cancelled := by
  unfold receive
  split
  · simp
  · split <;> simp

theorem cancelled_after : (c.after op).cancelled = true ↔ c.cancelled = true ∨ op = .cancel := by
  cases op with
  | send => simp [offers_send.cancelled]
  | sendError => simp [offers_sendError.cancelled]
  | receive => simp [after, receive_state]
  | addSender | closeSender | closeReceiver | cancel =>
    simp [after, addSender, closeSender, closeReceiver, cancel]

theorem receiving_after :
    (c.after op).receiving = true ↔ c.receiving = true ∧ op ≠ .closeReceiver := by
  cases op with
  | send => simp [offers_send.receiving]
  | sendError => simp [offers_sendError.receiving]
  | receive => simp [after, receive_state]
  | addSender | closeSender | closeReceiver | cancel =>
    simp [after, addSender, closeSender, closeReceiver, cancel]

theorem mem_senders_after : sender ∈ (c.after op).senders ↔
    (sender ∈ c.senders ∨ c.opened? op = some sender) ∧ op ≠ .closeSender sender := by
  cases op with
  | send => simp [offers_send.senders, opened?]
  | sendError => simp [offers_sendError.senders, opened?]
  | receive => simp [after, receive_state, opened?]
  | addSender =>
    simp only [after, addSender, opened?, List.mem_cons, Option.some.injEq]
    exact ⟨fun h => ⟨h.symm.imp_right Eq.symm, nofun⟩, fun h => h.1.symm.imp_left Eq.symm⟩
  | closeSender closed => simp [after, closeSender, opened?, @eq_comm _ closed]
  | closeReceiver | cancel => simp [after, closeReceiver, cancel, opened?]

theorem accepted?_of_gone (hgone : c.receiving = false) : c.accepted? op = none := by
  cases op with
  | send => exact offers_send.heard hgone
  | sendError => exact offers_sendError.heard hgone
  | addSender | closeSender | receive | closeReceiver | cancel => rfl

/-- Of what is in the queue and what is accepted nothing is lost, repeated or moved. -/
theorem queue_append_accepted? (hcancelled : c.cancelled = false) (hop : op ≠ .closeReceiver) :
    c.queue ++ (c.accepted? op).toList = (c.received? op).toList ++ (c.after op).queue := by
  cases op with
  | send => simp [offers_send.queue, received?]
  | sendError => simp [offers_sendError.queue, received?]
  | receive =>
    cases hqueue : c.queue with
    | nil =>
      by_cases hclosed : c.senders.isEmpty = true <;>
        simp [accepted?, received?, after, receive, hcancelled, hqueue, hclosed]
    | cons item rest => simp [accepted?, received?, after, receive, hcancelled, hqueue]
  | closeReceiver => exact absurd rfl hop
  | addSender | closeSender | cancel =>
    simp [accepted?, received?, after, addSender, closeSender, cancel]

end Step

section Run
variable {start : Channel} {ops : List Operation} {op : Operation}

theorem cancelled_run (h : start.cancelled = false) :
    (start.run ops).cancelled = true ↔ .cancel ∈ ops := by
  induction ops using List.reverseRecOn with
  | nil => simp [run, h]
  | append_singleton ops op ih =>
    rw [run_append, cancelled_after, ih, List.mem_append, List.mem_singleton, @eq_comm _ op]

theorem receiving_run (h : start.receiving = true) :
    (start.run ops).receiving = true ↔ .closeReceiver ∉ ops := by
  induction ops using List.reverseRecOn with
  | nil => simp [run, h]
  | append_singleton ops op ih =>
    rw [run_append, receiving_after, ih, List.mem_append, List.mem_singleton, not_or, ne_comm]

theorem mem_senders_run {s : Nat} (hopened : s ∈ start.opened ops)
    (hclosed : .closeSender s ∉ ops) : s ∈ (start.run ops).senders := by
  induction ops using List.reverseRecOn with
  | nil => simpa [opened, along, run] using hopened
  | append_singleton ops op ih =>
    obtain ⟨hbefore, hop⟩ : .closeSender s ∉ ops ∧ op ≠ .closeSender s := by
      simpa [eq_comm] using hclosed
    rw [opened_append, List.mem_append, Option.mem_toList] at hopened
    rw [run_append, mem_senders_after]
    exact ⟨hopened.imp_left fun h => ih h hbefore, hop⟩

/-- The items that are accepted are those received, those that the queue still holds and those that
were lost with the receiver. -/
theorem accepted_run (hfresh : start.queue = []) (hactive : start.cancelled = false)
    (hreceiving : start.receiving = true) (hcancel : .cancel ∉ ops) : ∃ lost,
      start.accepted ops = start.received ops ++ (start.run ops).queue ++ lost ∧
        (.closeReceiver ∉ ops → lost = []) := by
  induction ops using List.reverseRecOn with
  | nil => exact ⟨[], by simp [accepted, received, along, run, hfresh], fun _ => rfl⟩
  | append_singleton ops op ih =>
    have hbefore : .cancel ∉ ops := fun h => hcancel (List.mem_append_left _ h)
    obtain ⟨lost, hitems, hlost⟩ := ih hbefore
    rw [accepted_append, received_append, run_append, hitems]
    by_cases hclose : op = .closeReceiver
    · subst hclose
      refine ⟨(start.run ops).queue ++ lost, ?_, fun h => absurd (by simp) h⟩
      simp [accepted?, received?, after, closeReceiver]
    have hlive : (start.run ops).cancelled = false := by
      rw [← Bool.not_eq_true, cancelled_run hactive]
      exact hbefore
    -- Only a channel with a receiver accepts, and then nothing has been lost.
    have hlate : lost ++ ((start.run ops).accepted? op).toList =
        ((start.run ops).accepted? op).toList ++ lost := by
      by_cases hheard : .closeReceiver ∈ ops
      · have hgone : (start.run ops).receiving = false := by
          rw [← Bool.not_eq_true, receiving_run hreceiving, not_not]
          exact hheard
        simp [accepted?_of_gone hgone]
      · simp [hlost hheard]
    refine ⟨lost, ?_, fun h => hlost fun hops => h (List.mem_append_left _ hops)⟩
    calc start.received ops ++ (start.run ops).queue ++ lost ++
          ((start.run ops).accepted? op).toList
        = start.received ops ++ ((start.run ops).queue ++
            ((start.run ops).accepted? op).toList) ++ lost := by
          simp only [List.append_assoc, hlate]
      _ = start.received ops ++ ((start.run ops).received? op).toList ++
            ((start.run ops).after op).queue ++ lost := by
          rw [queue_append_accepted? hlive hclose, List.append_assoc, List.append_assoc,
            List.append_assoc, List.append_assoc]

end Run

/-- What both ends of a channel are owed after some operations. -/
structure Delivers (start : Channel) (ops : List Operation) : Prop where
  inOrder : .cancel ∉ ops → start.received ops <+: start.accepted ops
  /-- The first item that is accepted and not received is the next. -/
  due : .cancel ∉ ops → .closeReceiver ∉ ops → ∀ item rest,
    start.accepted ops = start.received ops ++ item :: rest →
      (start.run ops).receive.1 = .item item
  ended : .cancel ∉ ops → .closeReceiver ∉ ops → (start.run ops).receive.1 = .ended →
    (∀ s ∈ start.opened ops, .closeSender s ∈ ops) ∧ start.received ops = start.accepted ops
  cancelled : .cancel ∈ ops → (start.run ops).receive.1 = .item (.error .cancelled) ∧
    ∀ s row, (start.run ops).send s row = .error .cancelled
  gone : .cancel ∉ ops → .closeReceiver ∈ ops → ∀ s,
    (∀ row, (start.run ops).send s row = .error (.execution .receiverGone)) ∧
      ∀ error, ((start.run ops).sendError s error).1 = false

section Ends
variable {c : Channel} {item : Item}

theorem receive_of_queue {rest : List Item} (hcancelled : c.cancelled = false)
    (hqueue : c.queue = item :: rest) : c.receive.1 = .item item := by
  simp [receive, hcancelled, hqueue]

theorem ended_of_receive (hcancelled : c.cancelled = false) (h : c.receive.1 = .ended) :
    c.queue = [] ∧ c.senders = [] := by
  cases hqueue : c.queue with
  | cons item rest => simp [receive, hcancelled, hqueue] at h
  | nil =>
    by_cases hclosed : c.senders.isEmpty = true
    · exact ⟨rfl, List.isEmpty_iff.1 hclosed⟩
    · simp [receive, hcancelled, hqueue, hclosed] at h

end Ends

/-- The operations may be of any number of senders, closed ones among them, and exceed the
capacity. -/
theorem delivers (n : Nat) (ops : List Operation) : (ofCapacity n).Delivers ops := by
  have hlive (h : .cancel ∉ ops) : ((ofCapacity n).run ops).cancelled = false := by
    rwa [← Bool.not_eq_true, cancelled_run rfl]
  have hkept (h : .cancel ∉ ops) : ∃ lost, (ofCapacity n).accepted ops =
      (ofCapacity n).received ops ++ ((ofCapacity n).run ops).queue ++ lost ∧
        (.closeReceiver ∉ ops → lost = []) := accepted_run rfl rfl rfl h
  constructor
  case inOrder =>
    intro hcancel
    obtain ⟨lost, hitems, -⟩ := hkept hcancel
    rw [hitems, List.append_assoc]
    exact List.prefix_append _ _
  case due =>
    intro hcancel hclose item rest hrest
    obtain ⟨lost, hitems, hlost⟩ := hkept hcancel
    rw [hlost hclose, List.append_nil, hrest] at hitems
    exact receive_of_queue (hlive hcancel) (List.append_cancel_left hitems).symm
  case ended =>
    intro hcancel hclose hended
    obtain ⟨hqueue, hsenders⟩ := ended_of_receive (hlive hcancel) hended
    obtain ⟨lost, hitems, hlost⟩ := hkept hcancel
    rw [hlost hclose, hqueue, List.append_nil, List.append_nil] at hitems
    refine ⟨fun s hs => by_contra fun hopen => ?_, hitems.symm⟩
    have hmem := mem_senders_run hs hopen
    rw [hsenders] at hmem
    cases hmem
  case cancelled =>
    intro hcancel
    have hcancelled : ((ofCapacity n).run ops).cancelled = true := (cancelled_run rfl).2 hcancel
    exact ⟨by rw [receive_of_cancelled hcancelled], fun s row => send_of_cancelled hcancelled⟩
  case gone =>
    intro hcancel hclose s
    have hgone : ((ofCapacity n).run ops).receiving = false := by
      rw [← Bool.not_eq_true, receiving_run rfl, not_not]
      exact hclose
    exact ⟨fun row => send_of_gone (hlive hcancel) hgone,
      fun error => by rw [sendError_of_gone hgone]⟩

/-- The second sender waits for room, so that its second row is not accepted. -/
example :
    let ops : List Operation := [.addSender, .send 0 [.int64 1], .send 1 [.int64 2],
      .send 1 [.int64 3], .receive, .closeSender 0, .closeSender 1, .receive]
    (ofCapacity 1).received ops = [.ok [.int64 1], .ok [.int64 2]] ∧
      (ofCapacity 1).accepted ops = [.ok [.int64 1], .ok [.int64 2]] ∧
      ((ofCapacity 1).run ops).receive.1 = .ended := ⟨rfl, rfl, rfl⟩

end Relational.Channel
