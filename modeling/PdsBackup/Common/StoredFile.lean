import PdsBackup.Common.DirectoryEntry
import PdsBackup.Core.Mirrors
import PdsBackup.Core.OpenFile

/-!
# What storing a file is

Both programs store files they are sent: the bytes are gathered in a temporary
file, which is checked and moved to its place below a base folder, and the time of
its directory is kept.  Here that is a routine of the disk alone.  Its failures
have no cause, and what a failed attempt leaves does not count.
-/

namespace PdsBackup

open Procedure

/-- Where a program keeps its files. -/
structure Storage where
  platform : Platform
  basePath : Text
  temporaryPath : Text

/-- A file as it arrives: what was announced, the blocks that came of it, whether
the last one did, and the name of the temporary file. -/
structure Arrival where
  path : Text
  fileSize : Nat
  lastWriteTime : Text
  hash : List Byte
  blocks : List (List Byte)
  complete : Bool
  name : Text

section Stream

variable {M : Type} (isData : M → Bool) (data : M → List Byte) (last : M → Bool)

/-- The blocks of a stream of messages, up to the one that is marked as the last;
another message ends them before. -/
def takeBlocks : List M → List (List Byte) × Bool
  | [] => ([], false)
  | message :: messages =>
      if isData message then
        if last message then ([data message], true)
        else (data message :: (takeBlocks messages).1, (takeBlocks messages).2)
      else ([], false)

end Stream

/-- A system call; why it fails does not matter. -/
def attempt {ε α : Type} (p : Procedure Disk ε α) : Procedure Disk Unit α :=
  within id (fun disk _ => disk) (fun _ => ()) p

/-- The blocks are written one after the other. -/
def appendAll (handle : Path) : List (List Byte) → Procedure Disk Unit Unit
  | [] => pure ()
  | block :: blocks => do
      attempt (SystemCall.append handle block)
      appendAll handle blocks

def makeMissing (text : Text) : Procedure Disk Unit Unit := do
  let found ← read fun disk => disk.present text
  when (!found) (attempt (SystemCall.createDirectories text))

namespace Storage

variable (storage : Storage)

def loadEntry (basePath absolutePath : Text) : Procedure Disk Unit DirectoryEntry := do
  let disk ← read id
  orRaise () (DirectoryEntry.load storage.platform basePath absolutePath disk.tree)

def setTimeToFile (entry : DirectoryEntry) (time : Text) : Procedure Disk Unit DirectoryEntry :=
  attempt (DirectoryEntry.setTimeToFile storage.platform entry time)

def saveParent (parent : Text) : Procedure Disk Unit DirectoryEntry :=
  if parent ≠ storage.basePath then storage.loadEntry storage.basePath parent else pure {}

def moveIntoPlace (tmpPath : Text) (expected : DirectoryEntry) : Procedure Disk Unit Unit := do
  makeMissing (parentPath expected.absolutePath)
  let entry ← storage.saveParent (parentPath expected.absolutePath)
  attempt (SystemCall.rename tmpPath expected.absolutePath)
  when (parentPath expected.absolutePath ≠ storage.basePath) do
    let _ ← storage.setTimeToFile entry entry.lastWriteTime
    pure ()

def acceptFile (tmpPath : Text) (expected : DirectoryEntry) : Procedure Disk Unit Unit := do
  let newFile ← storage.loadEntry storage.temporaryPath tmpPath
  let newFile ← storage.setTimeToFile newFile expected.lastWriteTime
  if newFile.size ≠ expected.size ∨ newFile.hash ≠ expected.hash ∨
      newFile.lastWriteTime ≠ expected.lastWriteTime then raise ()
  else storage.moveIntoPlace tmpPath expected

def tmpPath (arrival : Arrival) : Text :=
  storage.temporaryPath ++ '/' :: arrival.name ++ ".tmp".toList

def storeFile (arrival : Arrival) : Procedure Disk Unit Unit := do
  let h ← orRaise () (Hash.ofBytes arrival.hash)
  let path ← orRaise () (Validator.validatePath arrival.path)
  ensure () (Validator.validateLastWriteTime arrival.lastWriteTime)
  let expected := DirectoryEntry.make storage.basePath path arrival.fileSize "file".toList
    arrival.lastWriteTime h
  makeMissing storage.temporaryPath
  let temporaryFile ← attempt (SystemCall.openTruncated (storage.tmpPath arrival))
  match temporaryFile with
  | some handle => do
      appendAll handle arrival.blocks
      ensure () arrival.complete
      storage.acceptFile (storage.tmpPath arrival) expected
  | none => raise ()

/-! ## When a file in the base folder is stored -/

/-- The conditions under which a file that lies in the base folder itself is stored:
it has come whole and as it was announced, its time and its temporary path can be
read back, and the system calls find room for it. -/
structure Storable (arrival : Arrival) (path : Text) (disk : Disk) : Prop where
  complete : arrival.complete = true
  size : arrival.blocks.flatten.length = arrival.fileSize
  hash : Hash.ofBytes arrival.hash = some (storage.platform.sha256 arrival.blocks.flatten)
  time : storage.platform.putTime (storage.platform.getTime arrival.lastWriteTime) =
    arrival.lastWriteTime
  named : (DirectoryEntry.relativePathOf storage.temporaryPath
    (storage.tmpPath arrival)).isSome = true
  room : ∃ disk₁ disk₂ disk₃ disk₄ handle, makeMissing storage.temporaryPath disk =
      .returned () disk₁ ∧
    SystemCall.openTruncated (storage.tmpPath arrival) disk₁ = .returned (some handle) disk₂ ∧
    appendAll handle arrival.blocks disk₂ = .returned () disk₃ ∧
    makeMissing storage.basePath
      (disk₃.setTime handle (storage.platform.getTime arrival.lastWriteTime)) = .returned () disk₄ ∧
    (SystemCall.rename (storage.tmpPath arrival) (storage.basePath ++ path) disk₄).returns = true

end Storage

theorem appendAll_grown {start : FileTree} {handle : Path} {content : List Byte} {disk : Disk}
    (blocks : List (List Byte)) (hgrown : Grown start handle content disk.tree) :
    ∃ disk', appendAll handle blocks disk = .returned () disk' ∧
      Grown start handle (content ++ blocks.flatten) disk'.tree := by
  induction blocks generalizing content disk with
  | nil => exact ⟨disk, rfl, by simpa using hgrown⟩
  | cons block blocks ih =>
      obtain ⟨disk₁, happend, hgrown₁⟩ := hgrown.append block
      obtain ⟨disk', hrest, hgrown'⟩ := ih hgrown₁
      refine ⟨disk', ?_, by simpa using hgrown'⟩
      have hattempt : attempt (SystemCall.append handle block) disk = .returned () disk₁ :=
        within_of_returned _ _ _ happend
      rw [appendAll, bind_of_returned hattempt]
      exact hrest

namespace Storage

variable {storage : Storage}

theorem moveIntoPlace_returns_iff {tmpPath : Text} {expected : DirectoryEntry} {disk : Disk}
    (hparent : parentPath expected.absolutePath = storage.basePath) :
    (storage.moveIntoPlace tmpPath expected disk).returns = true ↔
      ∃ disk', makeMissing storage.basePath disk = .returned () disk' ∧
        (SystemCall.rename tmpPath expected.absolutePath disk').returns = true := by
  rw [moveIntoPlace, saveParent, hparent, if_neg (not_not.mpr rfl)]
  cases hmake : makeMissing storage.basePath disk with
  | raised exception disk' =>
      rw [bind_of_raised hmake]
      simp [Exit.returns]
  | returned value disk' =>
      rw [bind_of_returned hmake, pure_bind_apply]
      have hsame : decide (storage.basePath ≠ storage.basePath) = false := by simp
      rw [hsame, when_false]
      cases hrename : SystemCall.rename tmpPath expected.absolutePath disk' with
      | returned value disk'' =>
          have hattempt : attempt (SystemCall.rename tmpPath expected.absolutePath) disk' =
              .returned value disk'' := within_of_returned _ _ _ hrename
          rw [bind_of_returned hattempt]
          simp [Exit.returns, hrename]
      | raised exception disk'' =>
          have hattempt : attempt (SystemCall.rename tmpPath expected.absolutePath) disk' =
              .raised () disk'' := within_of_raised _ _ _ hrename
          rw [bind_of_raised hattempt]
          simp [Exit.returns, hrename]

/-- The temporary file is accepted if its path can be cut at the temporary folder and
it is as it was announced. -/
theorem acceptFile_returns_iff {start : FileTree} {handle : Path} {content : List Byte}
    {disk : Disk} {tmpPath : Text} {expected : DirectoryEntry}
    (hgrown : Grown start handle content disk.tree) (hresolve : start.resolve tmpPath = some handle) :
    (storage.acceptFile tmpPath expected disk).returns = true ↔
      (DirectoryEntry.relativePathOf storage.temporaryPath tmpPath).isSome = true ∧
      content.length = expected.size ∧ storage.platform.sha256 content = expected.hash ∧
      storage.platform.putTime (storage.platform.getTime expected.lastWriteTime) =
        expected.lastWriteTime ∧
      (storage.moveIntoPlace tmpPath expected (disk.setTime handle
        (storage.platform.getTime expected.lastWriteTime))).returns = true := by
  obtain ⟨mtime, hnode⟩ := hgrown.holds
  have hresolve' : disk.tree.resolve tmpPath = some handle := by
    rw [FileTree.resolve_congr hgrown.isDir]
    exact hresolve
  have hstatus : (disk.tree.status tmpPath).isSome = true := by
    simp [FileTree.status, hresolve', hnode]
  cases hload : DirectoryEntry.load storage.platform storage.temporaryPath tmpPath disk.tree with
  | none =>
      have hnamed : (DirectoryEntry.relativePathOf storage.temporaryPath tmpPath).isSome = false := by
        by_contra hsome
        rw [Bool.not_eq_false] at hsome
        obtain ⟨entry, hentry⟩ : ∃ entry, DirectoryEntry.load storage.platform
            storage.temporaryPath tmpPath disk.tree = some entry :=
          DirectoryEntry.load_isSome hsome hstatus
        rw [hload] at hentry
        cases hentry
      have hraised : storage.loadEntry storage.temporaryPath tmpPath disk = .raised () disk := by
        rw [loadEntry, read_bind_apply, id, hload]
        rfl
      rw [acceptFile, bind_of_raised hraised, hnamed]
      simp [Exit.returns]
  | some entry =>
      obtain ⟨hrelative, habsolute, node, hstatus', hdescribes⟩ := DirectoryEntry.load_eq_some hload
      have hfile : node = .file content mtime := by
        rw [FileTree.status, hresolve', Option.bind_some, hnode] at hstatus'
        exact (Option.some.inj hstatus').symm
      have hloaded : storage.loadEntry storage.temporaryPath tmpPath disk = .returned entry disk := by
        rw [loadEntry, read_bind_apply, id, hload]
        rfl
      have hset : storage.setTimeToFile entry expected.lastWriteTime disk =
          .returned { entry with lastWriteTime :=
              storage.platform.putTime (storage.platform.getTime expected.lastWriteTime) }
            (disk.setTime handle (storage.platform.getTime expected.lastWriteTime)) := by
        apply within_of_returned
        rw [← habsolute] at hresolve'
        exact DirectoryEntry.setTimeToFile_of_resolve hresolve' hnode _
      subst hfile
      have hsize : entry.size = content.length := hdescribes.size
      have hhash : entry.hash = storage.platform.sha256 content := hdescribes.hash
      rw [acceptFile, bind_of_returned hloaded, bind_of_returned hset, hrelative]
      simp only [hsize, hhash, Option.isSome_some, true_and]
      by_cases hsame : content.length = expected.size ∧
          storage.platform.sha256 content = expected.hash ∧
          storage.platform.putTime (storage.platform.getTime expected.lastWriteTime) =
            expected.lastWriteTime
      · rw [if_neg (by simp [hsame])]
        simp [hsame]
      · rw [if_pos (by rw [← not_and_or, ← not_and_or]; exact hsame)]
        simp only [raise_apply, Exit.returns, Bool.false_eq_true, false_iff]
        exact fun h => hsame ⟨h.1, h.2.1, h.2.2.1⟩

/-- What is left to do when the temporary file is open. -/
theorem received_returns_iff {arrival : Arrival} {path : Text} {h : Hash} {disk₁ disk₂ : Disk}
    {handle : Path} (hresolve : disk₁.tree.resolve (storage.tmpPath arrival) = some handle)
    (hgrown : Grown disk₁.tree handle [] disk₂.tree)
    (hparent : parentPath (storage.basePath ++ path) = storage.basePath) :
    ((do
      appendAll handle arrival.blocks
      ensure () arrival.complete
      storage.acceptFile (storage.tmpPath arrival) (DirectoryEntry.make storage.basePath path
        arrival.fileSize "file".toList arrival.lastWriteTime h)) disk₂).returns = true ↔
      arrival.complete = true ∧
      (DirectoryEntry.relativePathOf storage.temporaryPath (storage.tmpPath arrival)).isSome = true ∧
      arrival.blocks.flatten.length = arrival.fileSize ∧
      storage.platform.sha256 arrival.blocks.flatten = h ∧
      storage.platform.putTime (storage.platform.getTime arrival.lastWriteTime) =
        arrival.lastWriteTime ∧
      ∃ disk₃ disk₄, appendAll handle arrival.blocks disk₂ = .returned () disk₃ ∧
        makeMissing storage.basePath
          (disk₃.setTime handle (storage.platform.getTime arrival.lastWriteTime)) =
            .returned () disk₄ ∧
        (SystemCall.rename (storage.tmpPath arrival) (storage.basePath ++ path)
          disk₄).returns = true := by
  obtain ⟨disk₃, hall, hgrown₃⟩ := appendAll_grown arrival.blocks hgrown
  rw [List.nil_append] at hgrown₃
  rw [bind_of_returned hall, hall]
  cases hcomplete : arrival.complete with
  | false =>
      rw [ensure_false, raise_bind_apply]
      simp [Exit.returns]
  | true =>
      rw [ensure_true, pure_bind_apply, acceptFile_returns_iff hgrown₃ hresolve,
        moveIntoPlace_returns_iff hparent]
      constructor
      · rintro ⟨hnamed, hsize, hhash, htime, disk₄, hbase, hrename⟩
        exact ⟨rfl, hnamed, hsize, hhash, htime, disk₃, disk₄, rfl, hbase, hrename⟩
      · rintro ⟨-, hnamed, hsize, hhash, htime, _, disk₄, heq, hbase, hrename⟩
        cases heq
        exact ⟨hnamed, hsize, hhash, htime, disk₄, hbase, hrename⟩

theorem storeFile_returns_iff {arrival : Arrival} {path : Text} (disk : Disk)
    (hpath : Validator.validatePath arrival.path = some path)
    (htime : Validator.validateLastWriteTime arrival.lastWriteTime = true)
    (hparent : parentPath (storage.basePath ++ path) = storage.basePath) :
    (storage.storeFile arrival disk).returns = true ↔ storage.Storable arrival path disk := by
  rw [storeFile, hpath, htime]
  constructor
  · intro hreturns
    obtain ⟨h, disk₀, hhash, hreturns⟩ := returns_bind_iff.mp hreturns
    cases hbytes : Hash.ofBytes arrival.hash with
    | none =>
        rw [hbytes] at hhash
        cases hhash
    | some bytes =>
        rw [hbytes] at hhash
        cases hhash
        rw [orRaise_some, pure_bind_apply, ensure_true, pure_bind_apply] at hreturns
        obtain ⟨_, disk₁, hmake, hreturns⟩ := returns_bind_iff.mp hreturns
        obtain ⟨temporaryFile, disk₂, hopened, hreturns⟩ := returns_bind_iff.mp hreturns
        rcases SystemCall.openTruncated_cases (storage.tmpPath arrival) disk₁ with
          hnone | ⟨handle, disk, hopen, hresolve, hgrown⟩
        · have hclosed : attempt (SystemCall.openTruncated (storage.tmpPath arrival)) disk₁ =
              .returned none disk₁ := within_of_returned _ _ _ hnone
          rw [hclosed] at hopened
          cases hopened
          cases hreturns
        · have hopened' : attempt (SystemCall.openTruncated (storage.tmpPath arrival)) disk₁ =
              .returned (some handle) disk := within_of_returned _ _ _ hopen
          rw [hopened'] at hopened
          cases hopened
          obtain ⟨hcomplete, hnamed, hsize, hsha, hread, disk₃, disk₄, hall, hbase, hrename⟩ :=
            (received_returns_iff hresolve hgrown hparent).mp hreturns
          exact ⟨hcomplete, hsize, by rw [hbytes, hsha], hread, hnamed,
            disk₁, disk₂, disk₃, disk₄, handle, hmake, hopen, hall, hbase, hrename⟩
  · intro hstorable
    obtain ⟨disk₁, disk₂, disk₃, disk₄, handle, hmake, hopen, hall, hbase, hrename⟩ :=
      hstorable.room
    have hopened : attempt (SystemCall.openTruncated (storage.tmpPath arrival)) disk₁ =
        .returned (some handle) disk₂ := within_of_returned _ _ _ hopen
    rw [hstorable.hash, orRaise_some, pure_bind_apply, orRaise_some, pure_bind_apply, ensure_true,
      pure_bind_apply, bind_of_returned hmake, bind_of_returned hopened]
    rcases SystemCall.openTruncated_cases (storage.tmpPath arrival) disk₁ with
      hnone | ⟨place, disk, hsome, hresolve, hgrown⟩
    · rw [hnone] at hopen
      cases hopen
    · rw [hsome] at hopen
      cases hopen
      exact (received_returns_iff hresolve hgrown hparent).mpr ⟨hstorable.complete,
        hstorable.named, hstorable.size, rfl, hstorable.time, disk₃, disk₄, hall, hbase, hrename⟩

end Storage

end PdsBackup
