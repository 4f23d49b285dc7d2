import PdsBackup.Client.Transfer

/-!
# The progress of a transfer

While a file is received or sent, a message is printed again and again, with a
bar of ten characters that is filled as far as the bytes transferred have come of
the size announced.  The bar is filled without a look at its end, and nothing
keeps the bytes below the size while they come.
-/

namespace PdsBackup

inductive ProgressFault where
  /-- a position past the bar is written -/
  | outOfBar
  /-- something is divided by zero -/
  | divisionByZero
  deriving DecidableEq

/-- `floor(100.0 * transferred / size)`.  Zero bytes of zero fill nothing. -/
def percentage (transferred size : Nat) : Except ProgressFault Nat :=
  if size = 0 ∧ transferred ≠ 0 then .error .divisionByZero
  else .ok (100 * transferred / size)

structure Message where
  head : Text
  body : Text
  tail : Text
  time : Text
  perc : Nat := 0

namespace Message

/-- The loop that fills the bar, from the position `i` on; the rest of the bar is
from there. -/
def fill (perc i : Nat) : Text → Except ProgressFault Text
  | [] => if 10 * (i + 1) ≤ perc then .error .outOfBar else .ok []
  | c :: rest =>
      if 10 * (i + 1) ≤ perc then do
        let filled ← fill perc (i + 1) rest
        return '=' :: filled
      else .ok (c :: rest)

/-- `std::setw(3)` -/
def padded (perc : Nat) : Text :=
  List.replicate (3 - (Nat.toDigits 10 perc).length) ' ' ++ Nat.toDigits 10 perc

def print (message : Message) : Except ProgressFault Text := do
  let progressBar ← fill message.perc 0 (List.replicate 10 ' ')
  return "\r(".toList ++ message.time ++ ") - [".toList ++ message.head ++ "] - ".toList ++
    message.body ++ " [".toList ++ progressBar ++ "] ".toList ++ padded message.perc ++
    "% - ".toList ++ message.tail

def update (newPerc : Nat) (message : Message) : Message := { message with perc := newPerc }

theorem fill_iff (perc i : Nat) (rest : Text) :
    (∃ filled, fill perc i rest = .ok filled) ↔ perc < 10 * (i + rest.length + 1) := by
  induction rest generalizing i with
  | nil =>
      rw [fill, List.length_nil, Nat.add_zero]
      by_cases hwritten : 10 * (i + 1) ≤ perc
      · rw [if_pos hwritten]
        exact iff_of_false (fun h => nomatch h) (Nat.not_lt.mpr hwritten)
      · rw [if_neg hwritten]
        exact iff_of_true ⟨[], rfl⟩ (Nat.lt_of_not_le hwritten)
  | cons c rest ih =>
      rw [fill, List.length_cons]
      by_cases hwritten : 10 * (i + 1) ≤ perc
      · have hrest := ih (i + 1)
        rw [show i + 1 + rest.length = i + (rest.length + 1) by omega] at hrest
        rw [if_pos hwritten, ← hrest]
        cases fill perc (i + 1) rest with
        | error fault => exact iff_of_false (fun h => nomatch h) (fun h => nomatch h)
        | ok filled => exact iff_of_true ⟨_, rfl⟩ ⟨_, rfl⟩
      · rw [if_neg hwritten]
        exact iff_of_true ⟨c :: rest, rfl⟩ (by omega)

theorem print_iff (message : Message) :
    (∃ line, message.print = .ok line) ↔ message.perc < 110 := by
  have hfill := fill_iff message.perc 0 (List.replicate 10 ' ')
  rw [List.length_replicate] at hfill
  rw [print, ← hfill]
  cases fill message.perc 0 (List.replicate 10 ' ') with
  | error fault => exact iff_of_false (fun h => nomatch h) (fun h => nomatch h)
  | ok filled => exact iff_of_true ⟨_, rfl⟩ ⟨_, rfl⟩

end Message

/-- The bytes that the bar has room for, of a size that has been announced. -/
def Fits (size transferred : Nat) : Prop := transferred = 0 ∨ 10 * transferred < 11 * size

theorem Fits.of_le {size transferred earlier : Nat} (h : Fits size transferred)
    (hle : earlier ≤ transferred) : Fits size earlier := by
  unfold Fits at h ⊢
  omega

/-- The message is updated and printed. -/
def progressed (size transferred : Nat) (message : Message) : Except ProgressFault Text := do
  let perc ← percentage transferred size
  (message.update perc).print

theorem progressed_iff (size transferred : Nat) (message : Message) :
    (∃ line, progressed size transferred message = .ok line) ↔ Fits size transferred := by
  rw [progressed, percentage, Fits]
  by_cases hzero : size = 0 ∧ transferred ≠ 0
  · rw [if_pos hzero]
    exact iff_of_false (fun h => nomatch h) (by omega)
  · rw [if_neg hzero]
    apply (Message.print_iff (message.update (100 * transferred / size))).trans
    show 100 * transferred / size < 110 ↔ _
    cases Nat.eq_zero_or_pos size with
    | inl hsize =>
        rw [hsize, Nat.div_zero]
        omega
    | inr hsize =>
        rw [Nat.div_lt_iff_lt_mul hsize]
        omega

/-- A line and the lines after it. -/
theorem lines_iff {line : Except ProgressFault Text} {lines : Except ProgressFault (List Text)}
    {P Q : Prop} (hline : (∃ first, line = .ok first) ↔ P)
    (hlines : (∃ others, lines = .ok others) ↔ Q) :
    (∃ all, (do
      let first ← line
      let others ← lines
      return first :: others : Except ProgressFault (List Text)) = .ok all) ↔ P ∧ Q := by
  rw [← hline, ← hlines]
  cases line with
  | error fault => exact iff_of_false (fun h => nomatch h) (fun h => nomatch h.1)
  | ok first =>
      cases lines with
      | error fault => exact iff_of_false (fun h => nomatch h) (fun h => nomatch h.2)
      | ok others => exact iff_of_true ⟨_, rfl⟩ ⟨⟨_, rfl⟩, _, rfl⟩

namespace Client

/-- The update where nothing transferred counts as everything. -/
def progressedOrDone (size transferred : Nat) (message : Message) : Except ProgressFault Text :=
  if transferred ≠ 0 then progressed size transferred message else (message.update 100).print

theorem progressedOrDone_iff (size transferred : Nat) (message : Message) :
    (∃ line, progressedOrDone size transferred message = .ok line) ↔ Fits size transferred := by
  rw [progressedOrDone]
  by_cases htransferred : transferred ≠ 0
  · rw [if_pos htransferred]
    exact progressed_iff size transferred message
  · rw [if_neg htransferred]
    exact iff_of_true ((Message.print_iff _).mpr (show 100 < 110 by decide))
      (.inl (not_not.mp htransferred))

section Receiving

variable (protocolVersion : Int)

/-- The data that the loop of `_storeFile` takes from the messages to come. -/
def dataTaken : List ServerMessage → List Byte
  | [] => []
  | message :: pending =>
      if message.version ≠ protocolVersion then []
      else if message.type ≠ .DATA then []
      else if message.last then message.data
      else message.data ++ dataTaken pending

/-- What that loop prints. -/
def receiveLines (size : Nat) (msg : Message) (totRecv : Nat) :
    List ServerMessage → Except ProgressFault (List Text)
  | [] => .ok []
  | message :: pending =>
      if message.version ≠ protocolVersion then .ok []
      else if message.type ≠ .DATA then .ok []
      else do
        let totRecv := totRecv + message.data.length
        let line ← progressedOrDone size totRecv msg
        let lines ← (if message.last then .ok [] else receiveLines size msg totRecv pending)
        return line :: lines

/-- What `_storeFile` prints of a file of the size announced, while its messages come. -/
def storeFileLines (size : Nat) (relativePath time : Text) (incoming : List ServerMessage) :
    Except ProgressFault (List Text) := do
  let msg : Message :=
    { head := "RECV".toList, body := "Receiving file:".toList, tail := relativePath, time }
  let line ← msg.print
  let lines ← receiveLines protocolVersion size msg 0 incoming
  return line :: lines

variable {protocolVersion}

theorem receiveLines_iff (size : Nat) (msg : Message) {totRecv : Nat} (hfits : Fits size totRecv)
    (incoming : List ServerMessage) :
    (∃ lines, receiveLines protocolVersion size msg totRecv incoming = .ok lines) ↔
      Fits size (totRecv + (dataTaken protocolVersion incoming).length) := by
  induction incoming generalizing totRecv with
  | nil => exact iff_of_true ⟨[], rfl⟩ hfits
  | cons message pending ih =>
      rw [receiveLines, dataTaken]
      by_cases hversion : message.version ≠ protocolVersion
      · rw [if_pos hversion, if_pos hversion]
        exact iff_of_true ⟨[], rfl⟩ hfits
      by_cases htype : message.type ≠ .DATA
      · rw [if_neg hversion, if_neg hversion, if_pos htype, if_pos htype]
        exact iff_of_true ⟨[], rfl⟩ hfits
      rw [if_neg hversion, if_neg hversion, if_neg htype, if_neg htype]
      have hline := progressedOrDone_iff size (totRecv + message.data.length) msg
      have hrest : (∃ lines, (if message.last then .ok [] else
          receiveLines protocolVersion size msg (totRecv + message.data.length) pending) =
            Except.ok lines) ↔
          (message.last = true ∨ ∃ lines, receiveLines protocolVersion size msg
            (totRecv + message.data.length) pending = .ok lines) := by
        by_cases hlast : message.last = true
        · rw [if_pos hlast]
          exact iff_of_true ⟨[], rfl⟩ (.inl hlast)
        · rw [if_neg hlast]
          exact (or_iff_right hlast).symm
      apply (lines_iff hline hrest).trans
      by_cases hlast : message.last = true
      · rw [if_pos hlast]
        exact and_iff_left (.inl hlast)
      · rw [if_neg hlast, List.length_append, ← Nat.add_assoc, or_iff_right hlast]
        by_cases hnow : Fits size (totRecv + message.data.length)
        · rw [ih hnow]
          exact and_iff_right hnow
        · exact iff_of_false (fun h => hnow h.1) fun h => hnow (h.of_le (Nat.le_add_right _ _))

theorem storeFileLines_iff (size : Nat) (relativePath time : Text)
    (incoming : List ServerMessage) :
    (∃ lines, storeFileLines protocolVersion size relativePath time incoming = .ok lines) ↔
      Fits size (dataTaken protocolVersion incoming).length := by
  have hlines : (∃ lines, receiveLines protocolVersion size
        { head := "RECV".toList, body := "Receiving file:".toList, tail := relativePath, time } 0
        incoming = .ok lines) ↔ Fits size (0 + (dataTaken protocolVersion incoming).length) :=
    receiveLines_iff size _ (.inl rfl) incoming
  rw [Nat.zero_add] at hlines
  apply (lines_iff (Message.print_iff _) hlines).trans
  exact and_iff_right (show 0 < 110 by decide)

end Receiving

section Sending

/-- What the loop of `_sendFile` prints, and what is printed after it, for the blocks
of the file that are read. -/
def sendLines (size : Nat) (message : Message) (totRead : Nat) :
    List (List Byte) → Except ProgressFault (List Text)
  | [] => .ok []
  | [block] => do
      let line ← progressedOrDone size (totRead + block.length) message
      return [line]
  | block :: next :: blocks => do
      let totRead := totRead + block.length
      let line ← progressed size totRead message
      let lines ← sendLines size message totRead (next :: blocks)
      return line :: lines

/-- What `_sendFile` prints of a file that had a size when its entry was made. -/
def sendFileLines (size : Nat) (relativePath time : Text) (blocks : List (List Byte)) :
    Except ProgressFault (List Text) := do
  let message : Message :=
    { head := "SENDING".toList, body := "Sending file:".toList, tail := relativePath, time }
  let line ← message.print
  let lines ← sendLines size message 0 blocks
  return line :: lines

theorem sendLines_iff (size : Nat) (message : Message) {totRead : Nat} (hfits : Fits size totRead)
    (blocks : List (List Byte)) :
    (∃ lines, sendLines size message totRead blocks = .ok lines) ↔
      Fits size (totRead + blocks.flatten.length) := by
  fun_induction sendLines size message totRead blocks with
  | case1 totRead => exact iff_of_true ⟨[], rfl⟩ hfits
  | case2 totRead block =>
      rw [List.flatten_singleton]
      have hline := progressedOrDone_iff size (totRead + block.length) message
      apply (lines_iff hline (iff_of_true ⟨[], rfl⟩ True.intro)).trans
      rw [and_true]
  | case3 totRead block next blocks totRead' ih =>
      have hline := progressed_iff size (totRead + block.length) message
      rw [List.flatten_cons, List.length_append, ← Nat.add_assoc]
      by_cases hnow : Fits size (totRead + block.length)
      · apply (lines_iff hline (ih hnow)).trans
        exact and_iff_right hnow
      · apply (lines_iff hline Iff.rfl).trans
        exact iff_of_false (fun h => hnow h.1) fun h => hnow (h.of_le (Nat.le_add_right _ _))

theorem sendFileLines_iff (size : Nat) (relativePath time : Text) (blocks : List (List Byte)) :
    (∃ lines, sendFileLines size relativePath time blocks = .ok lines) ↔
      Fits size blocks.flatten.length := by
  have hlines : (∃ lines, sendLines size
        { head := "SENDING".toList, body := "Sending file:".toList, tail := relativePath, time } 0
        blocks = .ok lines) ↔ Fits size (0 + blocks.flatten.length) :=
    sendLines_iff size _ (.inl rfl) blocks
  rw [Nat.zero_add] at hlines
  apply (lines_iff (Message.print_iff _) hlines).trans
  exact and_iff_right (show 0 < 110 by decide)

end Sending

/-- For every size announced and whatever comes or is read: every bar stays within
its ten characters, and nothing is divided by zero, exactly if there are no bytes
or less than eleven tenths of the size. -/
theorem progress_iff (protocolVersion : Int) (size : Nat) (relativePath time : Text)
    (incoming : List ServerMessage) (blocks : List (List Byte)) :
    ((∃ lines, storeFileLines protocolVersion size relativePath time incoming = .ok lines) ↔
        Fits size (dataTaken protocolVersion incoming).length) ∧
      ((∃ lines, sendFileLines size relativePath time blocks = .ok lines) ↔
        Fits size blocks.flatten.length) :=
  ⟨storeFileLines_iff size relativePath time incoming,
    sendFileLines_iff size relativePath time blocks⟩

/-- One DATA message with so many bytes. -/
def dataOf (length : Nat) : ServerMessage where
  version := 1
  type := .DATA
  data := List.replicate length 0
  last := true

/-- Eleven bytes of ten that were announced, and one of none, received and sent. -/
theorem bar_overrun :
    storeFileLines 1 10 [] [] [dataOf 11] = .error .outOfBar ∧
      storeFileLines 1 0 [] [] [dataOf 1] = .error .divisionByZero ∧
      sendFileLines 10 [] [] [List.replicate 11 0] = .error .outOfBar ∧
      sendFileLines 0 [] [] [[0]] = .error .divisionByZero := by
  refine ⟨?_, ?_, ?_, ?_⟩
  all_goals rfl

/-- The file that is sent is the one that is read, not the one that was announced. -/
theorem sentFile_fits_iff {settings : Settings} (hsize : 0 < settings.maxDataChunkSize)
    (element : DirectoryEntry) (time : Text) (content : List Byte) :
    (∃ lines, sendFileLines element.size element.relativePath time
        (blocks settings.maxDataChunkSize content) = .ok lines) ↔
      Fits element.size content.length := by
  have hlines := sendFileLines_iff element.size element.relativePath time
    (blocks settings.maxDataChunkSize content)
  rw [blocks_flatten hsize] at hlines
  exact hlines

end Client

end PdsBackup
