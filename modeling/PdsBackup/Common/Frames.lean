import Mathlib.Tactic.Common
import PdsBackup.Common.Blocks
import PdsBackup.Common.Messages

/-!
# Frames

What a client writes is a sequence of requests, and after a STOR come the DATA messages
of its file, of which the last is marked.
-/

namespace PdsBackup

/-- The DATA messages of a file. -/
structure FileRun (version : Int) (messages : List ClientMessage) : Prop where
  data : ∀ message ∈ messages, message.version = version ∧ message.type = .DATA
  marked : ∃ before final, messages = before ++ [final] ∧ final.last = true ∧
    ∀ message ∈ before, message.last = false

/-- The messages that come with a request. -/
def Attached (version : Int) (request : ClientMessage) (messages : List ClientMessage) : Prop :=
  if request.type = .STOR then FileRun version messages else messages = []

/-- The stream is made of these requests, each with the messages that come with it. -/
inductive Framed (version : Int) : List ClientMessage → List ClientMessage → Prop
  | nil : Framed version [] []
  | cons {request : ClientMessage} {messages requests stream : List ClientMessage}
      (hrequest : request.type ≠ .DATA) (hattached : Attached version request messages)
      (hrest : Framed version requests stream) :
      Framed version (request :: requests) (request :: (messages ++ stream))

variable {version : Int} {requests others stream more : List ClientMessage}

theorem Framed.append (hframed : Framed version requests stream)
    (hmore : Framed version others more) : Framed version (requests ++ others) (stream ++ more) := by
  induction hframed with
  | nil => exact hmore
  | cons hrequest hattached hrest ih =>
      rw [List.cons_append, List.cons_append, List.append_assoc]
      exact .cons hrequest hattached ih

theorem framed_single {request : ClientMessage} {messages : List ClientMessage}
    (hrequest : request.type ≠ .DATA) (hattached : Attached version request messages) :
    Framed version [request] (request :: messages) := by
  have hframed := Framed.cons hrequest hattached .nil
  rwa [List.append_nil] at hframed

theorem Framed.eq_nil_iff (hframed : Framed version requests stream) :
    stream = [] ↔ requests = [] := by
  cases hframed with
  | nil => simp
  | cons => simp

/-- A stream that begins with a message begins with a request and what comes with it. -/
theorem Framed.uncons {message : ClientMessage} {pending : List ClientMessage}
    (hframed : Framed version requests (message :: pending)) :
    ∃ others messages rest, requests = message :: others ∧ pending = messages ++ rest ∧
      Attached version message messages ∧ Framed version others rest := by
  cases hframed with
  | cons hrequest hattached hrest => exact ⟨_, _, _, rfl, rfl, hattached, hrest⟩

/-- The messages of a file are no requests. -/
theorem Attached.data {request : ClientMessage} {messages : List ClientMessage}
    (hattached : Attached version request messages) :
    ∀ message ∈ messages, message.type = .DATA := by
  unfold Attached at hattached
  split at hattached
  · exact fun message hmessage => (hattached.data message hmessage).2
  · rw [hattached]
    exact fun _ hmessage => absurd hmessage List.not_mem_nil

end PdsBackup
