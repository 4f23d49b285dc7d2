import PdsBackup.Common.Socket

/-!
# Strings over TLS

`wolfSSL_write` sends what it is given as one or more records, and `wolfSSL_read`
delivers bytes of one record only.  `TLS_Socket` calls each of them once where
`TCP_Socket` loops: a string is received only if its length and its bytes each
travel in one record and are delivered at once.
-/

namespace PdsBackup.Socket.TLS

open Delivery Framing Procedure

def maxRecordSize : Nat := 16384

/-- How the bytes of each call of `wolfSSL_write` are cut into records. -/
abbrev Cuts := Nat → List Byte → List (List Byte)

/-- The sending end: the records so far. -/
structure Sender where
  sent : List (List Byte) := []
  cuts : Cuts
  calls : Nat := 0

/-- The receiving end: the records that will still come. -/
structure Receiver where
  coming : List (List Byte)
  script : Script
  calls : Nat := 0

/-- `wolfSSL_read`: a failure, or bytes of the first record, none when there is no
record left. -/
def wolfSSLRead (len : Nat) (s : Receiver) : Option (List Byte) × Receiver :=
  match s.script s.calls, s.coming with
  | none, _ => (none, { s with calls := s.calls + 1 })
  | some _, [] => (some [], { s with calls := s.calls + 1 })
  | some wish, record :: records =>
      (some (record.take (min len (max 1 wish))),
        { s with
          coming :=
            if record.drop (min len (max 1 wish)) = [] then records
            else record.drop (min len (max 1 wish)) :: records
          calls := s.calls + 1 })

def read (len : Nat) : Procedure Receiver SocketError (List Byte) := fun s =>
  match wolfSSLRead len s with
  | (none, s') => .raised .read s'
  | (some buffer, s') => .returned buffer s'

def recvString : Procedure Receiver SocketError (List Byte) := do
  let header ← read 4
  ensure .read (4 ≤ header.length)
  let dataLength := ntohl header
  let rcvBuf ← read dataLength
  ensure .read (dataLength ≤ rcvBuf.length)
  pure rcvBuf

/-- `wolfSSL_write` sends all it is given. -/
def write (data : List Byte) : Procedure Sender SocketError Nat := fun s =>
  .returned data.length
    { s with
      sent := s.sent ++ s.cuts s.calls data
      calls := s.calls + 1 }

def sendString (stringBuffer : List Byte) : Procedure Sender SocketError Nat := do
  let len ← write (htonl stringBuffer.length)
  ensure .write (4 ≤ len)
  write stringBuffer

/-! ## What is sent -/

/-- What `sendString` writes for some strings, call by call. -/
def written (messages : List (List Byte)) : List (List Byte) :=
  messages.flatMap fun message => [htonl message.length, message]

/-- The records of some writes, from a call on. -/
def records (cuts : Cuts) : Nat → List (List Byte) → List (List Byte)
  | _, [] => []
  | call, data :: writes => cuts call data ++ records cuts (call + 1) writes

theorem sendAll_returns (messages : List (List Byte)) (s : Sender) :
    ∃ calls, sendAll sendString messages s =
      .returned () { s with sent := s.sent ++ records s.cuts s.calls (written messages), calls } := by
  induction messages generalizing s with
  | nil => exact ⟨s.calls, by simp [sendAll, written, records]⟩
  | cons message messages ih =>
      have hsend : sendString message s = .returned message.length
          { s with
            sent := s.sent ++ s.cuts s.calls (htonl message.length) ++
              s.cuts (s.calls + 1) message
            calls := s.calls + 2 } := by
        simp [sendString, write, bind_apply, htonl]
      obtain ⟨calls, hrest⟩ := ih
        { s with
          sent := s.sent ++ s.cuts s.calls (htonl message.length) ++
            s.cuts (s.calls + 1) message
          calls := s.calls + 2 }
      refine ⟨calls, ?_⟩
      rw [sendAll, bind_of_returned hsend, hrest]
      simp [written, records]

/-- A cut of some bytes that TLS admits. -/
structure Admissible (cut : List (List Byte)) (data : List Byte) : Prop where
  flatten : cut.flatten = data
  sizes : ∀ record ∈ cut, record ≠ [] ∧ record.length ≤ maxRecordSize

/-- The cuts of some writes are admissible, from a call on. -/
def AdmissibleFrom (cuts : Cuts) (call : Nat) (writes : List (List Byte)) : Prop :=
  ∀ index data, writes[index]? = some data → Admissible (cuts (call + index) data) data

/-- The bytes of a write travel in one record and are delivered at once. -/
def Whole (cuts : Cuts) (script : Script) (call : Nat) (data : List Byte) : Prop :=
  cuts call data = [data] ∧ ∃ wish, script call = some wish ∧ data.length ≤ max 1 wish

/-- So do the bytes of every write, from a call on. -/
def WholeFrom (cuts : Cuts) (script : Script) (call : Nat) (writes : List (List Byte)) : Prop :=
  ∀ index data, writes[index]? = some data → Whole cuts script (call + index) data

theorem forall_getElem?_cons {P : Nat → List Byte → Prop} {call : Nat} {data : List Byte}
    {writes : List (List Byte)} :
    (∀ index other, (data :: writes)[index]? = some other → P (call + index) other) ↔
      P call data ∧ ∀ index other, writes[index]? = some other → P (call + 1 + index) other := by
  constructor
  · intro hall
    refine ⟨hall 0 data rfl, fun index other hother => ?_⟩
    have hnext := hall (index + 1) other hother
    rwa [show call + 1 + index = call + (index + 1) by omega]
  · rintro ⟨hfirst, hrest⟩ index other hother
    cases index with
    | zero =>
        obtain rfl : data = other := by simpa using hother
        exact hfirst
    | succ index =>
        have hnext := hrest index other hother
        rwa [show call + (index + 1) = call + 1 + index by omega]

/-! ## What is received -/

section Receiving

variable {cuts : Cuts} {call : Nat} {data : List Byte} {rest : List (List Byte)} {s : Receiver}

theorem read_of_whole (hcoming : s.coming = cuts call data ++ rest)
    (hcalls : s.calls = call) (hwhole : Whole cuts s.script call data) :
    read data.length s = .returned data { s with coming := rest, calls := call + 1 } := by
  obtain ⟨hcut, wish, hscript, hwish⟩ := hwhole
  have hcount : min data.length (max 1 wish) = data.length := Nat.min_eq_left hwish
  rw [hcut, List.singleton_append] at hcoming
  simp [read, wolfSSLRead, hcalls, hscript, hcoming, hcount]

/-- Otherwise the one read fails or falls short. -/
theorem read_of_not_whole (hdata : data ≠ []) (hcut : Admissible (cuts call data) data)
    (hcoming : s.coming = cuts call data ++ rest) (hcalls : s.calls = call)
    (hparts : ¬ Whole cuts s.script call data) :
    (∃ exception s', read data.length s = .raised exception s') ∨
      ∃ buffer s', read data.length s = .returned buffer s' ∧ buffer.length < data.length := by
  cases hscript : s.script call with
  | none => exact .inl ⟨.read, { s with calls := call + 1 }, by
      simp [read, wolfSSLRead, hcalls, hscript]⟩
  | some wish =>
      cases hrecords : cuts call data with
      | nil =>
          have hflatten := hcut.flatten
          rw [hrecords, List.flatten_nil] at hflatten
          exact absurd hflatten.symm hdata
      | cons record others =>
          have hread : ∃ s', read data.length s =
              .returned (record.take (min data.length (max 1 wish))) s' := by
            rw [hrecords, List.cons_append] at hcoming
            simp [read, wolfSSLRead, hcalls, hscript, hcoming]
          obtain ⟨s', hread⟩ := hread
          refine .inr ⟨_, s', hread, ?_⟩
          have hflatten := hcut.flatten
          rw [hrecords, List.flatten_cons] at hflatten
          rw [List.length_take]
          by_contra hlong
          have hlength : record.length + others.flatten.length = data.length := by
            rw [← hflatten, List.length_append]
          have hempty : others.flatten = [] := List.length_eq_zero_iff.mp (by omega)
          have hothers : others = [] := by
            cases others with
            | nil => rfl
            | cons other others =>
                have hother := (hcut.sizes other (by rw [hrecords]; simp)).1
                rw [List.flatten_cons, List.append_eq_nil_iff] at hempty
                exact absurd hempty.1 hother
          apply hparts
          refine ⟨?_, wish, hscript, by omega⟩
          rw [hrecords, hothers, ← hflatten, hempty, List.append_nil]

/-- A string is received exactly when its two writes came whole. -/
theorem recvString_cases {message : List Byte} (hsize : 1 ≤ message.length)
    (hbound : message.length < 2 ^ 32)
    (hheader : Admissible (cuts call (htonl message.length)) (htonl message.length))
    (hbody : Admissible (cuts (call + 1) message) message)
    (hcoming : s.coming = cuts call (htonl message.length) ++ (cuts (call + 1) message ++ rest))
    (hcalls : s.calls = call) :
    (Whole cuts s.script call (htonl message.length) ∧ Whole cuts s.script (call + 1) message ∧
        recvString s = .returned message { s with coming := rest, calls := call + 2 }) ∨
      (¬ (Whole cuts s.script call (htonl message.length) ∧
          Whole cuts s.script (call + 1) message) ∧
        ∃ exception s', recvString s = .raised exception s') := by
  have hlength : (htonl message.length).length = 4 := length_bigEndian 4 _
  have hnonempty : htonl message.length ≠ [] := by
    intro hempty
    rw [hempty] at hlength
    simp at hlength
  have hnumber : ntohl (htonl message.length) = message.length := by
    rw [ntohl, htonl, ofBigEndian_bigEndian]
    exact Nat.mod_eq_of_lt (by simpa using hbound)
  have hmessage : message ≠ [] := List.length_pos_iff.mp hsize
  by_cases hwhole : Whole cuts s.script call (htonl message.length)
  · have hfirst := read_of_whole hcoming hcalls hwhole
    rw [hlength] at hfirst
    have hstart : recvString s =
        (do
          let rcvBuf ← read message.length
          ensure .read (message.length ≤ rcvBuf.length)
          pure rcvBuf : Procedure Receiver SocketError (List Byte))
          { s with coming := cuts (call + 1) message ++ rest, calls := call + 1 } := by
      rw [recvString, bind_of_returned hfirst]
      simp only [hlength, Nat.le_refl, decide_true, ensure_true, pure_bind_apply, hnumber]
    by_cases hwhole' : Whole cuts s.script (call + 1) message
    · have hsecond := read_of_whole
        (s := { s with coming := cuts (call + 1) message ++ rest, calls := call + 1 })
        rfl rfl hwhole'
      refine .inl ⟨hwhole, hwhole', ?_⟩
      rw [hstart, bind_of_returned hsecond]
      simp
    · refine .inr ⟨fun hboth => hwhole' hboth.2, ?_⟩
      rw [hstart]
      rcases read_of_not_whole
          (s := { s with coming := cuts (call + 1) message ++ rest, calls := call + 1 })
          hmessage hbody rfl rfl hwhole' with ⟨exception, s', hread⟩ | ⟨buffer, s', hread, hshort⟩
      · exact ⟨exception, s', bind_of_raised hread⟩
      · refine ⟨.read, s', ?_⟩
        rw [bind_of_returned hread, decide_eq_false (by omega)]
        rfl
  · refine .inr ⟨fun hboth => hwhole hboth.1, ?_⟩
    rcases read_of_not_whole hnonempty hheader hcoming hcalls hwhole with
      ⟨exception, s', hread⟩ | ⟨buffer, s', hread, hshort⟩
    · rw [hlength] at hread
      exact ⟨exception, s', bind_of_raised hread⟩
    · rw [hlength] at hread hshort
      refine ⟨.read, s', ?_⟩
      rw [recvString, bind_of_returned hread, decide_eq_false (by omega)]
      rfl

/-- So are many strings. -/
theorem recvAll_iff {messages : List (List Byte)} (hsizes : Sizes messages)
    (hadmissible : AdmissibleFrom cuts call (written messages))
    (hcoming : s.coming = records cuts call (written messages)) (hcalls : s.calls = call) :
    (∃ s', recvAll recvString messages.length s = .returned messages s') ↔
      WholeFrom cuts s.script call (written messages) := by
  induction messages generalizing call s with
  | nil => simp [recvAll, WholeFrom, written]
  | cons message messages ih =>
      have hsize := hsizes message List.mem_cons_self
      have hwritten : written (message :: messages) =
          htonl message.length :: message :: written messages := rfl
      rw [hwritten, AdmissibleFrom, forall_getElem?_cons (P := fun call data =>
        Admissible (cuts call data) data), forall_getElem?_cons (P := fun call data =>
        Admissible (cuts call data) data)] at hadmissible
      rw [hwritten, records, records] at hcoming
      rw [hwritten, WholeFrom, forall_getElem?_cons (P := Whole cuts s.script),
        forall_getElem?_cons (P := Whole cuts s.script), List.length_cons, recvAll, ← and_assoc]
      obtain ⟨hheader, hbody, hrest⟩ := hadmissible
      rcases recvString_cases hsize.1 (by omega) hheader hbody hcoming hcalls with
        ⟨hwhole, hwhole', hrecv⟩ | ⟨hparts, exception, s', hrecv⟩
      · rw [bind_of_returned hrecv]
        have hih := ih
          (s := { s with
            coming := records cuts (call + 1 + 1) (written messages)
            calls := call + 2 })
          (fun other hother => hsizes other (List.mem_cons_of_mem message hother)) hrest rfl rfl
        rw [WholeFrom] at hih
        rw [← hih]
        constructor
        · rintro ⟨s', hreturned⟩
          obtain ⟨result, middle, hresult, hpure⟩ := bind_returned_iff.mp hreturned
          simp only [pure_apply, Exit.returned.injEq, List.cons.injEq, true_and] at hpure
          exact ⟨⟨hwhole, hwhole'⟩, middle, by rw [hresult, hpure.1]⟩
        · rintro ⟨-, s', hreturned⟩
          exact ⟨s', by rw [bind_of_returned hreturned]; rfl⟩
      · rw [bind_of_raised hrecv]
        constructor
        · rintro ⟨s'', hreturned⟩
          cases hreturned
        · rintro ⟨hboth, -⟩
          exact absurd hboth hparts

end Receiving

/-- Strings are received as they were sent exactly when the bytes of every write, of
lengths and of strings, travel in one record and are delivered at once. -/
theorem strings_received_iff {messages : List (List Byte)} (hsizes : Sizes messages)
    {cuts : Cuts} (hcuts : AdmissibleFrom cuts 0 (written messages)) (receives : Script) :
    ∃ out, sendAll sendString messages { cuts } = .returned () out ∧
      ((∃ s, recvAll recvString messages.length { coming := out.sent, script := receives } =
          .returned messages s) ↔ WholeFrom cuts receives 0 (written messages)) := by
  obtain ⟨calls, hsend⟩ := sendAll_returns messages { cuts }
  exact ⟨_, hsend, recvAll_iff (s := { coming := [] ++ records cuts 0 (written messages)
                                       script := receives }) hsizes hcuts rfl rfl⟩

/-- A transport that fills its records and delivers all that a record has. -/
def fullRecords : Cuts := fun _ data =>
  if data.length ≤ maxRecordSize then [data]
  else [data.take maxRecordSize, data.drop maxRecordSize]

theorem fullRecords_admissible (call : Nat) {data : List Byte} (hdata : data ≠ [])
    (hlength : data.length ≤ 2 * maxRecordSize) : Admissible (fullRecords call data) data := by
  by_cases hone : data.length ≤ maxRecordSize
  · rw [fullRecords, if_pos hone]
    exact ⟨by simp, by simp [hdata, hone]⟩
  · rw [fullRecords, if_neg hone]
    refine ⟨by simp, fun record hrecord => ?_⟩
    rw [List.mem_cons, List.mem_singleton] at hrecord
    have hpositive : 0 < maxRecordSize := by decide
    rcases hrecord with rfl | rfl
    · rw [← List.length_pos_iff, List.length_take]
      omega
    · rw [← List.length_pos_iff, List.length_drop]
      omega

theorem strings_received_short :
    ∃ out, sendAll sendString [[1, 2], [3]] { cuts := fullRecords } = .returned () out ∧
      ((∃ s, recvAll recvString 2 { coming := out.sent, script := fun _ => some (2 ^ 32) } =
          .returned [[1, 2], [3]] s) ↔
        WholeFrom fullRecords (fun _ => some (2 ^ 32)) 0 (written [[1, 2], [3]])) := by
  refine strings_received_iff (by unfold Sizes; decide) (fun index data hdata => ?_) _
  have hmem := List.mem_of_getElem? hdata
  have hsizes : ∀ data ∈ written [[1, 2], [3]], data ≠ [] ∧ data.length ≤ 2 * maxRecordSize := by
    decide
  exact fullRecords_admissible _ (hsizes data hmem).1 (hsizes data hmem).2

/-- A string of one byte more than a record holds. -/
def longString : List Byte := List.replicate (maxRecordSize + 1) 0

theorem not_strings_received :
    Sizes [longString] ∧ AdmissibleFrom fullRecords 0 (written [longString]) ∧
      ¬ ∃ s, recvAll recvString 1
          { coming := records fullRecords 0 (written [longString])
            script := fun _ => some (2 ^ 32) } = .returned [longString] s := by
  have hlength : longString.length = maxRecordSize + 1 := List.length_replicate
  have hsizes : Sizes [longString] := by
    intro message hmessage
    rw [List.mem_singleton.mp hmessage, hlength]
    decide
  have hadmissible : AdmissibleFrom fullRecords 0 (written [longString]) := by
    intro index data hdata
    have hmem := List.mem_of_getElem? hdata
    simp only [written, List.flatMap_cons, List.flatMap_nil, List.append_nil, List.mem_cons,
      List.not_mem_nil, or_false] at hmem
    rcases hmem with rfl | rfl
    · have hheader : (htonl longString.length).length = 4 := length_bigEndian 4 _
      apply fullRecords_admissible
      · rw [← List.length_pos_iff, hheader]
        decide
      · rw [hheader]
        decide
    · apply fullRecords_admissible
      · rw [← List.length_pos_iff, hlength]
        decide
      · rw [hlength]
        decide
  refine ⟨hsizes, hadmissible, fun hreceived => ?_⟩
  have hwhole := (recvAll_iff (s :=
    { coming := records fullRecords 0 (written [longString])
      script := fun _ => some (2 ^ 32) }) hsizes hadmissible rfl rfl).mp hreceived 1 longString rfl
  have hcut := hwhole.1
  rw [fullRecords, if_neg (by rw [hlength]; decide)] at hcut
  have hcount := congrArg List.length hcut
  simp at hcount

end PdsBackup.Socket.TLS
