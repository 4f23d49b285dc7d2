import PdsBackup.Core.Delivery
import PdsBackup.Core.FileTree
import PdsBackup.Core.Framing

/-!
# Sockets

`TCP_Socket` and `TLS_Socket`: a string is sent as its length, four bytes in
network byte order, and its bytes.  `TCP_Socket` loops over `recv` and `send` until
all bytes are through; `TLS_Socket` calls `wolfSSL_read` and `wolfSSL_write` once.
-/

namespace PdsBackup.Socket

open Delivery Framing Procedure

inductive SocketError where
  | create
  | accept
  | bind
  | read
  | write
  | connect
  | getMac
  | getIp
  | closed
  deriving DecidableEq

/-- `htonl` of a size, as it lies in memory: of its low 32 bits. -/
def htonl (size : Nat) : List Byte := bigEndian 4 size

def ntohl (bytes : List Byte) : Nat := ofBigEndian bytes

namespace TCP

def read (len : Nat) : Procedure (Inbound Byte) SocketError (List Byte) :=
  readLoop .read .closed len []

def recvString : Procedure (Inbound Byte) SocketError (List Byte) := do
  let header ← read 4
  ensure .read (4 ≤ header.length)
  let dataLength := ntohl header
  let rcvBuf ← read dataLength
  ensure .read (dataLength ≤ rcvBuf.length)
  pure rcvBuf

def write (data : List Byte) : Procedure (Outbound Byte) SocketError Nat :=
  writeLoop .write data 0

def sendString (stringBuffer : List Byte) : Procedure (Outbound Byte) SocketError Nat := do
  let len ← write (htonl stringBuffer.length)
  ensure .write (4 ≤ len)
  write stringBuffer

end TCP

/-- Strings sent one after another. -/
def sendAll {σ : Type} (send : List Byte → Procedure σ SocketError Nat) :
    List (List Byte) → Procedure σ SocketError Unit
  | [] => pure ()
  | message :: messages => do
      let _ ← send message
      sendAll send messages

/-- So many strings received one after another. -/
def recvAll {σ : Type} (recv : Procedure σ SocketError (List Byte)) :
    Nat → Procedure σ SocketError (List (List Byte))
  | 0 => pure []
  | count + 1 => do
      let message ← recv
      let messages ← recvAll recv count
      pure (message :: messages)

/-- The bytes a `std::string` can have: fewer than `2 ^ 32`, so that the length in
front is the length, and at least one. -/
def Sizes (messages : List (List Byte)) : Prop :=
  ∀ message ∈ messages, 1 ≤ message.length ∧ message.length ≤ 2 ^ 32 - 1

/-! ## TCP -/

namespace TCP

theorem read_cases (len : Nat) (s : Inbound Byte) :
    (len ≤ s.coming.length ∧ ∃ calls, read len s =
        .returned (s.coming.take len) { s with coming := s.coming.drop len, calls }) ∨
      ((len ≤ s.coming.length → ¬ s.script.Sound) ∧
        ∃ exception s', read len s = .raised exception s') :=
  readLoop_cases _ _ len [] s

/-- Of a frame that is there `recvString` returns the message, and leaves the stream
behind the frame, unless a call fails. -/
theorem recvString_frame {message rest : List Byte} {s : Inbound Byte}
    (hsize : message.length < 2 ^ 32) (hcoming : s.coming = frame 4 message ++ rest) :
    (∃ calls, recvString s = .returned message { s with coming := rest, calls }) ∨
      ¬ s.script.Sound ∧ ∃ exception s', recvString s = .raised exception s' := by
  have htake : s.coming.take 4 = bigEndian 4 message.length := by
    rw [hcoming, frame, List.append_assoc]
    exact List.take_left' (length_bigEndian 4 _)
  have hdrop : s.coming.drop 4 = message ++ rest := by
    rw [hcoming, frame, List.append_assoc]
    exact List.drop_left' (length_bigEndian 4 _)
  have hlength : ntohl (bigEndian 4 message.length) = message.length := by
    rw [ntohl, ofBigEndian_bigEndian]
    exact Nat.mod_eq_of_lt (by simpa using hsize)
  have henough : 4 ≤ s.coming.length := by
    rw [hcoming, List.length_append, length_frame]
    omega
  rcases read_cases 4 s with ⟨-, calls, hheader⟩ | ⟨hwhy, exception, s', hheader⟩
  · rw [htake, hdrop] at hheader
    rw [recvString, bind_of_returned hheader]
    simp only [length_bigEndian, Nat.le_refl, decide_true, ensure_true, pure_bind_apply, hlength]
    rcases read_cases message.length { s with coming := message ++ rest, calls } with
      ⟨-, calls', hbody⟩ | ⟨hwhy, exception, s', hbody⟩
    · rw [List.take_left, List.drop_left] at hbody
      refine .inl ⟨calls', ?_⟩
      rw [bind_of_returned hbody]
      simp
    · refine .inr ⟨hwhy (by simp), exception, s', bind_of_raised hbody⟩
  · exact .inr ⟨hwhy henough, exception, s', by rw [recvString, bind_of_raised hheader]⟩

/-- A stream that ends within a frame makes `recvString` raise. -/
theorem recvString_of_truncated {message : List Byte} {s : Inbound Byte} {count : Nat}
    (hsize : message.length < 2 ^ 32) (hcount : count < (frame 4 message).length)
    (hcoming : s.coming = (frame 4 message).take count) :
    ∃ exception s', recvString s = .raised exception s' := by
  rw [length_frame] at hcount
  have hcomingLength : s.coming.length = count := by
    rw [hcoming, List.length_take, length_frame]
    omega
  rcases read_cases 4 s with ⟨henough, calls, hheader⟩ | ⟨-, exception, s', hheader⟩
  · have htake : s.coming.take 4 = bigEndian 4 message.length := by
      rw [hcoming, List.take_take, Nat.min_eq_left (by omega)]
      exact List.take_left' (length_bigEndian 4 _)
    have hlength : ntohl (bigEndian 4 message.length) = message.length := by
      rw [ntohl, ofBigEndian_bigEndian]
      exact Nat.mod_eq_of_lt (by simpa using hsize)
    rw [htake] at hheader
    rcases read_cases message.length { s with coming := s.coming.drop 4, calls } with
      ⟨hle, -, -⟩ | ⟨-, exception, s', hbody⟩
    · simp only [List.length_drop] at hle
      omega
    · refine ⟨exception, s', ?_⟩
      rw [recvString, bind_of_returned hheader]
      simp only [length_bigEndian, Nat.le_refl, decide_true, ensure_true, pure_bind_apply, hlength]
      exact bind_of_raised hbody
  · exact ⟨exception, s', by rw [recvString, bind_of_raised hheader]⟩

/-- Without a failing call `sendString` sends one frame. -/
theorem sendString_of_sound {s : Outbound Byte} (hsound : s.script.Sound)
    (message : List Byte) :
    ∃ calls, sendString message s =
      .returned message.length { s with sent := s.sent ++ frame 4 message, calls } := by
  rcases writeLoop_cases SocketError.write (htonl message.length) 0 s with
    ⟨calls, hheader⟩ | ⟨hwhy, -⟩
  · have hheader' : write (htonl message.length) s =
        .returned 4 { s with sent := s.sent ++ htonl message.length, calls } := by
      simpa [write, htonl] using hheader
    rcases writeLoop_cases SocketError.write message 0
        { s with sent := s.sent ++ htonl message.length, calls } with
      ⟨calls', hbody⟩ | ⟨hwhy, -⟩
    · refine ⟨calls', ?_⟩
      rw [sendString, bind_of_returned hheader']
      simp only [Nat.le_refl, decide_true, ensure_true, pure_bind_apply]
      rw [write, hbody, Nat.zero_add, List.append_assoc]
      rfl
    · exact absurd hsound hwhy
  · exact absurd hsound hwhy

theorem sendAll_of_sound {s : Outbound Byte} (hsound : s.script.Sound)
    (messages : List (List Byte)) :
    ∃ calls, sendAll sendString messages s =
      .returned () { s with sent := s.sent ++ frames 4 messages, calls } := by
  induction messages generalizing s with
  | nil => exact ⟨s.calls, by simp [sendAll, frames]⟩
  | cons message messages ih =>
      obtain ⟨calls, hsend⟩ := sendString_of_sound hsound message
      obtain ⟨calls', hrest⟩ := ih (s := { s with sent := s.sent ++ frame 4 message, calls }) hsound
      refine ⟨calls', ?_⟩
      rw [sendAll, bind_of_returned hsend, hrest, frames_cons, List.append_assoc]

/-- So many frames are received as their messages, unless a call fails. -/
theorem recvAll_frames {messages : List (List Byte)} {rest : List Byte} {s : Inbound Byte}
    (hsizes : Sizes messages) (hcoming : s.coming = frames 4 messages ++ rest) :
    (∃ calls, recvAll recvString messages.length s =
        .returned messages { s with coming := rest, calls }) ∨
      ¬ s.script.Sound ∧ ∃ exception s',
        recvAll recvString messages.length s = .raised exception s' := by
  induction messages generalizing s with
  | nil => exact .inl ⟨s.calls, by rw [show rest = s.coming from hcoming.symm]; rfl⟩
  | cons message messages ih =>
      have hsize := (hsizes message List.mem_cons_self).2
      rw [frames_cons, List.append_assoc] at hcoming
      rw [List.length_cons, recvAll]
      rcases recvString_frame (by omega) hcoming with
        ⟨calls, hrecv⟩ | ⟨hwhy, exception, s', hrecv⟩
      · rw [bind_of_returned hrecv]
        rcases ih (s := { s with coming := frames 4 messages ++ rest, calls })
            (fun other hother => hsizes other (List.mem_cons_of_mem message hother)) rfl with
          ⟨calls', hrest⟩ | ⟨hwhy, exception, s', hrest⟩
        · exact .inl ⟨calls', by rw [bind_of_returned hrest]; rfl⟩
        · exact .inr ⟨hwhy, exception, s', bind_of_raised hrest⟩
      · exact .inr ⟨hwhy, exception, s', bind_of_raised hrecv⟩

/-- A stream that ends before so many frames are through makes one of the calls raise. -/
theorem recvAll_of_truncated {messages : List (List Byte)} {s : Inbound Byte} {count : Nat}
    (hsizes : Sizes messages) (hcount : count < (frames 4 messages).length)
    (hcoming : s.coming = (frames 4 messages).take count) :
    ∃ exception s', recvAll recvString messages.length s = .raised exception s' := by
  induction messages generalizing s count with
  | nil => simp [frames] at hcount
  | cons message messages ih =>
      have hsize := (hsizes message List.mem_cons_self).2
      rw [frames_cons, List.length_append] at hcount
      rw [frames_cons] at hcoming
      rw [List.length_cons, recvAll]
      by_cases hframe : count < (frame 4 message).length
      · rw [List.take_append_of_le_length (Nat.le_of_lt hframe)] at hcoming
        obtain ⟨exception, s', hrecv⟩ := recvString_of_truncated (by omega) hframe hcoming
        exact ⟨exception, s', bind_of_raised hrecv⟩
      · have hrest : s.coming = frame 4 message ++
            (frames 4 messages).take (count - (frame 4 message).length) := by
          rw [hcoming, List.take_append, List.take_of_length_le (by omega)]
        rcases recvString_frame (by omega) hrest with ⟨calls, hrecv⟩ | ⟨-, exception, s', hrecv⟩
        · rw [bind_of_returned hrecv]
          obtain ⟨exception, s', hraise⟩ := ih
            (s := { s with
              coming := (frames 4 messages).take (count - (frame 4 message).length)
              calls })
            (fun other hother => hsizes other (List.mem_cons_of_mem message hother)) (by omega) rfl
          exact ⟨exception, s', bind_of_raised hraise⟩
        · exact ⟨exception, s', bind_of_raised hrecv⟩

/-- However both ends are cut, the strings that were sent are received, one call
leaving the stream where the next frame begins; a stream that ends within a frame
makes a call raise. -/
theorem strings_received {messages : List (List Byte)} (hsizes : Sizes messages)
    {sends receives : Script} (hsends : sends.Sound) (hreceives : receives.Sound) :
    (∃ out, sendAll sendString messages { script := sends } = .returned () out ∧
      ∀ before after, messages = before ++ after →
        ∃ s, recvAll recvString before.length { coming := out.sent, script := receives } =
          .returned before s ∧ s.coming = frames 4 after) ∧
      ∀ (script : Script) (before after : List (List Byte)) (count : Nat),
        messages = before ++ after → count < (frames 4 before).length →
          ∃ exception s, recvAll recvString before.length
            { coming := (frames 4 messages).take count, script } = .raised exception s := by
  have hbefore : ∀ before after, messages = before ++ after → Sizes before :=
    fun before after heq message hmessage =>
      hsizes message (heq ▸ List.mem_append_left after hmessage)
  constructor
  · obtain ⟨calls, hsend⟩ := sendAll_of_sound (s := { script := sends }) hsends messages
    refine ⟨_, hsend, fun before after heq => ?_⟩
    have hcoming : ([] : List Byte) ++ frames 4 messages =
        frames 4 before ++ frames 4 after := by
      rw [List.nil_append, heq, frames_append]
    rcases recvAll_frames (s := { coming := [] ++ frames 4 messages, script := receives })
        (hbefore before after heq) hcoming with ⟨calls', hrecv⟩ | ⟨hwhy, -⟩
    · exact ⟨_, hrecv, rfl⟩
    · exact absurd hreceives hwhy
  · intro script before after count heq hcount
    have htake : (frames 4 messages).take count = (frames 4 before).take count := by
      rw [heq, frames_append, List.take_append_of_le_length (Nat.le_of_lt hcount)]
    exact recvAll_of_truncated (s := { coming := (frames 4 messages).take count, script })
      (hbefore before after heq) hcount htake

/-- Two strings, one byte a call. -/
theorem strings_received_bytewise :
    (∃ out, sendAll sendString [[1, 2], [3]] { script := fun _ => some 1 } = .returned () out ∧
      ∀ before after, [[1, 2], [3]] = before ++ after →
        ∃ s, recvAll recvString before.length
            { coming := out.sent, script := fun _ => some 1 } = .returned before s ∧
          s.coming = frames 4 after) ∧
      ∀ (script : Script) (before after : List (List Byte)) (count : Nat),
        [[1, 2], [3]] = before ++ after → count < (frames 4 before).length →
          ∃ exception s, recvAll recvString before.length
            { coming := (frames 4 [[1, 2], [3]]).take count, script } = .raised exception s :=
  strings_received (by unfold Sizes; decide) (fun _ => rfl) fun _ => rfl

end TCP

end PdsBackup.Socket
