import PdsBackup.Client.SavedFiles
import PdsBackup.Server.SavedFiles

/-!
# Elements through a database and back

What `insert` or `update` writes of an element, `forAll` reads back, in both
databases alike: `insert` and `update` bind the size as a 64-bit integer, `forAll`
reads it with an accessor for 32-bit integers.
-/

namespace PdsBackup

open Procedure Transaction

/-- The function given to `forAll` is called with the attributes of an element that
was inserted, or with which its row was updated, and otherwise as before. -/
structure RoundTrips (username mac : Text) (entry : DirectoryEntry) : Prop where
  serverInsert : ∀ (rows : List Server.Row) (visits : List Visit),
    (rows.filter (Server.Row.isOf username mac)).mapM Server.Row.visit = some visits →
      ∃ s, (do
          Server.SavedFiles.insert {} username mac entry
          Server.SavedFiles.forAll {} username mac gather :
            Server.SavedFiles.Method (List Visit) Empty Unit)
          { table := rows, caller := [] } = .returned () s ∧
        s.caller = visits ++ [entry.attributes]
  serverUpdate : ∀ (rows : List Server.Row) (visits : List Visit),
    ((rows.filter (Server.Row.isOf username mac)).mapM fun row =>
        if row.isAt username mac entry.relativePath then some entry.attributes
        else row.visit) = some visits →
      ∃ s, (do
          Server.SavedFiles.update {} username mac entry
          Server.SavedFiles.forAll {} username mac gather :
            Server.SavedFiles.Method (List Visit) Empty Unit)
          { table := rows, caller := [] } = .returned () s ∧ s.caller = visits
  clientInsert : ∀ (rows : List Client.Row) (visits : List Visit),
    (Client.Database.removeRow entry.relativePath rows).mapM Client.Row.visit = some visits →
      ∃ s, (do
          Client.SavedFiles.insert {} entry
          Client.SavedFiles.forAll {} gather :
            Client.SavedFiles.Method (List Visit) Empty Unit)
          { table := rows, caller := [] } = .returned () s ∧
        s.caller = visits ++ [entry.attributes]
  clientUpdate : ∀ (rows : List Client.Row) (visits : List Visit),
    (rows.mapM fun row =>
        if row.path = entry.relativePath then some entry.attributes
        else row.visit) = some visits →
      ∃ s, (do
          Client.SavedFiles.update {} entry
          Client.SavedFiles.forAll {} gather :
            Client.SavedFiles.Method (List Visit) Empty Unit)
          { table := rows, caller := [] } = .returned () s ∧ s.caller = visits

section Rows

variable {username mac : Text} {entry : DirectoryEntry}

/-- The row of an element can always be read, if not always as it was written. -/
theorem readColumns_isSome (path type : Text) (size : Nat) (lastWriteTime : Text)
    (hash : List Byte) :
    ∃ visit, readColumns path type size lastWriteTime (stringToHex hash) = some visit := by
  rw [readColumns, cString_eq_self (nul_notMem_hex _), hexToString_stringToHex]
  exact ⟨_, rfl⟩

theorem mapM_append_singleton {ρ : Type} {readRow : ρ → Option Visit} {rows : List ρ} {row : ρ}
    {visits : List Visit} {visit : Visit} (hrows : rows.mapM readRow = some visits)
    (hrow : readRow row = some visit) : (rows ++ [row]).mapM readRow = some (visits ++ [visit]) := by
  rw [List.mapM_append, hrows]
  simp [hrow]

/-- After an insertion `forAll` visits the new row last. -/
theorem serverInsert_visits (username mac : Text) (rows : List Server.Row)
    (visits : List Visit) {visit : Visit}
    (hrows : (rows.filter (Server.Row.isOf username mac)).mapM Server.Row.visit = some visits)
    (hrow : readColumns entry.relativePath entry.typeName (entry.size % 2 ^ 64)
      entry.lastWriteTime (stringToHex entry.hash.str) = some visit) :
    ∃ s, (do
        Server.SavedFiles.insert {} username mac entry
        Server.SavedFiles.forAll {} username mac gather :
          Server.SavedFiles.Method (List Visit) Empty Unit)
        { table := rows, caller := [] } = .returned () s ∧ s.caller = visits ++ [visit] := by
  have hown : Server.Row.isOf username mac (Server.Row.ofValues username mac entry.relativePath
      entry.typeName entry.size entry.lastWriteTime entry.hash.str) = true := by
    simp [Server.Row.isOf, Server.Row.ofValues]
  refine ⟨_, (bind_of_returned (writing_of_idle rfl rfl _)).trans
    (Server.SavedFiles.forAll_gather username mac rfl ?_), rfl⟩
  rw [List.filter_append, List.filter_cons_of_pos hown, List.filter_nil]
  exact mapM_append_singleton hrows hrow

theorem clientInsert_visits {rows : List Client.Row} {visits : List Visit} {visit : Visit}
    (hrows : (Client.Database.removeRow entry.relativePath rows).mapM Client.Row.visit =
      some visits)
    (hrow : readColumns entry.relativePath entry.typeName (entry.size % 2 ^ 64)
      entry.lastWriteTime (stringToHex entry.hash.str) = some visit) :
    ∃ s, (do
        Client.SavedFiles.insert {} entry
        Client.SavedFiles.forAll {} gather :
          Client.SavedFiles.Method (List Visit) Empty Unit)
        { table := rows, caller := [] } = .returned () s ∧ s.caller = visits ++ [visit] :=
  ⟨_, (bind_of_returned (writing_of_idle rfl rfl _)).trans
    (Client.SavedFiles.forAll_gather rfl
      (mapM_append_singleton hrows hrow)), rfl⟩

/-- An update changes what is visited of the rows it is about. -/
theorem mapM_update {ρ : Type} (readRow : ρ → Option Visit) (rows : List ρ)
    {selects : ρ → Bool} {update : ρ → ρ} {visit : Visit}
    (hupdate : ∀ row, selects row = true → readRow (update row) = some visit) :
    (rows.map fun row => if selects row then update row else row).mapM readRow =
      rows.mapM fun row => if selects row then some visit else readRow row := by
  rw [List.mapM_map]
  congr 1
  funext row
  cases hselects : selects row with
  | true => simp [hselects, hupdate row hselects]
  | false => simp [hselects]

theorem serverUpdate_visits {rows : List Server.Row} {visits : List Visit}
    (hrow : readColumns entry.relativePath entry.typeName (entry.size % 2 ^ 64)
      entry.lastWriteTime (stringToHex entry.hash.str) = some entry.attributes)
    (hrows : ((rows.filter (Server.Row.isOf username mac)).mapM fun row =>
      if row.isAt username mac entry.relativePath then some entry.attributes
      else row.visit) = some visits) :
    ∃ s, (do
        Server.SavedFiles.update {} username mac entry
        Server.SavedFiles.forAll {} username mac gather :
          Server.SavedFiles.Method (List Visit) Empty Unit)
        { table := rows, caller := [] } = .returned () s ∧ s.caller = visits := by
  refine ⟨_, (bind_of_returned (writing_of_idle rfl rfl _)).trans
    (Server.SavedFiles.forAll_gather username mac rfl ?_), rfl⟩
  have hfilter : ∀ rows : List Server.Row,
      (rows.map fun row => if row.isAt username mac entry.relativePath then
          row.set entry.typeName entry.size entry.lastWriteTime entry.hash.str
        else row).filter (Server.Row.isOf username mac) =
      (rows.filter (Server.Row.isOf username mac)).map fun row =>
        if row.isAt username mac entry.relativePath then
          row.set entry.typeName entry.size entry.lastWriteTime entry.hash.str
        else row := by
    intro rows
    rw [List.filter_map]
    congr 1
    apply List.filter_congr
    intro row _
    simp only [Function.comp_apply]
    split <;> rfl
  rw [hfilter, mapM_update Server.Row.visit _ ?_]
  · exact hrows
  · intro row hat
    have hpath : row.path = entry.relativePath := by
      simp only [Server.Row.isAt, Bool.decide_and, Bool.and_eq_true, decide_eq_true_eq] at hat
      exact hat.2
    rw [Server.Row.visit, Server.Row.set, hpath]
    exact hrow

theorem clientUpdate_visits {rows : List Client.Row} {visits : List Visit}
    (hrow : readColumns entry.relativePath entry.typeName (entry.size % 2 ^ 64)
      entry.lastWriteTime (stringToHex entry.hash.str) = some entry.attributes)
    (hrows : (rows.mapM fun row =>
      if row.path = entry.relativePath then some entry.attributes else row.visit) =
        some visits) :
    ∃ s, (do
        Client.SavedFiles.update {} entry
        Client.SavedFiles.forAll {} gather :
          Client.SavedFiles.Method (List Visit) Empty Unit)
        { table := rows, caller := [] } = .returned () s ∧ s.caller = visits := by
  refine ⟨_, (bind_of_returned (writing_of_idle rfl rfl _)).trans
    (Client.SavedFiles.forAll_gather rfl ?_), rfl⟩
  have hupdate : ∀ row : Client.Row, decide (row.path = entry.relativePath) = true →
      (row.set entry.typeName entry.size entry.lastWriteTime entry.hash.str).visit =
        some entry.attributes := by
    intro row hat
    rw [Client.Row.visit, Client.Row.set, of_decide_eq_true hat]
    exact hrow
  have hmap := mapM_update Client.Row.visit rows hupdate
  simp only [decide_eq_true_eq] at hmap
  exact hmap.trans hrows

/-- An element comes back from both databases as it went in exactly when the
accessor is wide enough for its size and its time has no NUL. -/
theorem roundTrips_iff (hpath : nul ∉ entry.relativePath)
    (htype : entry.type ≠ .notFileNorDirectory) (hsize : entry.size < 2 ^ 63) :
    RoundTrips username mac entry ↔ entry.size < 2 ^ 31 ∧ nul ∉ entry.lastWriteTime := by
  rw [← readColumns_eq_attributes_iff hpath htype hsize]
  constructor
  · intro htrips
    obtain ⟨visit, hvisit⟩ := readColumns_isSome entry.relativePath entry.typeName
      (entry.size % 2 ^ 64) entry.lastWriteTime entry.hash.str
    obtain ⟨s, hrun, hcaller⟩ := htrips.serverInsert [] [] rfl
    obtain ⟨s', hrun', hcaller'⟩ :=
      serverInsert_visits username mac [] [] rfl hvisit
    rw [hrun, Exit.returned.injEq] at hrun'
    rw [← hrun'.2, hcaller] at hcaller'
    simp only [List.nil_append, List.cons.injEq, and_true] at hcaller'
    rw [hvisit, hcaller']
  · intro hrow
    exact
      { serverInsert := fun _ _ hrows => serverInsert_visits username mac _ _ hrows hrow
        serverUpdate := fun _ _ hrows => serverUpdate_visits hrow hrows
        clientInsert := fun _ _ hrows => clientInsert_visits hrows hrow
        clientUpdate := fun _ _ hrows => clientUpdate_visits hrow hrows }

end Rows

/-- A file of two gibibytes. -/
def largeFile : DirectoryEntry where
  relativePath := "/large".toList
  size := 2 ^ 31
  type := .file
  lastWriteTime := "Thursday, 01 January 1970 01:00 UTC".toList

theorem roundTrips_small :
    RoundTrips "anna".toList "1:2:3:4:5:6".toList { largeFile with size := 2 ^ 31 - 1 } :=
  (roundTrips_iff (by decide) (by decide) (by decide)).mpr ⟨by decide, by decide⟩

/-- Its size comes back with the sign of the 32-bit integer. -/
theorem not_roundTrips :
    (Server.Row.ofEntry "anna".toList "1:2:3:4:5:6".toList largeFile).visit =
        some { largeFile.attributes with size := 2 ^ 64 - 2 ^ 31 } ∧
      ¬ RoundTrips "anna".toList "1:2:3:4:5:6".toList largeFile := by
  refine ⟨by decide +kernel, ?_⟩
  intro htrips
  obtain ⟨s, hrun, hcaller⟩ := htrips.serverInsert [] [] rfl
  have hrow : readColumns largeFile.relativePath largeFile.typeName (largeFile.size % 2 ^ 64)
      largeFile.lastWriteTime (stringToHex largeFile.hash.str) =
        some { largeFile.attributes with size := 2 ^ 64 - 2 ^ 31 } := by
    decide +kernel
  obtain ⟨s', hrun', hcaller'⟩ :=
    serverInsert_visits "anna".toList "1:2:3:4:5:6".toList [] [] rfl hrow
  rw [hrun, Exit.returned.injEq] at hrun'
  rw [← hrun'.2, hcaller] at hcaller'
  exact absurd hcaller' (by decide +kernel)

end PdsBackup
