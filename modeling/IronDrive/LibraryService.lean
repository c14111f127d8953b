import IronDrive.SpaceService

/-! Personal libraries: the queries of the library model, and the service over them. -/

namespace IronDrive

open Lib CryptoService

/-- Mark a user's setup as complete. -/
def User.markSetupComplete (now userId : String) : ServiceProgram Unit :=
  executeSome (Db.markSetupComplete userId now)

namespace PersonalLibrary

def alreadyHasLibrary : String := "This user already has a personal library."

/-- The row a new server-mode library is stored as. -/
def serverMode (drawn : Drawn) (userId : String) (encryptedDataKey : Bytes) : PersonalLibrary where
  id := drawn.id
  userId := userId
  encryptionMode := "server"
  encryptedDataKey := encryptedDataKey
  salt := none
  verifyBlob := none
  recoveryBlob := none
  createdAt := drawn.now

/-- Insert a new library row. -/
def create (row : PersonalLibrary) : ServiceProgram PersonalLibrary := do
  -- Pre-check for a friendly error message; the unique column catches races.
  if (← query (·.findLibraryByUser row.userId)).isSome then Program.fail (.conflict alreadyHasLibrary)
  else
    insertOr alreadyHasLibrary (Db.insertLibrary row)
    Program.okOr (.internal "Library was inserted but could not be read back")
      (← query (·.findLibraryById row.id))

/-- Delete a library row; it may be missing. -/
def deleteById (id : String) : ServiceProgram Unit := do
  match ← execute (Db.deleteLibrary id) with
  | .ok _ => return ()
  | .error e => Program.fail (.sqlx e)

end PersonalLibrary

namespace LibraryService

def createLibraryDirectory (dir : Path) (libraryId : String) : FsProgram Unit :=
  createDirectory "library" dir libraryId

/-- Create a server-mode personal library for the given user. -/
def setupLibrary (P : Primitives) (config : AppConfig) (masterKey : MasterKey) (drawn : Drawn)
    (userId : String) : ServiceProgram PersonalLibrary := do
  let user ← Program.okOr .notFound (← query (·.findUserById userId))
  if user.setupComplete then
    Program.fail (.conflict "Setup has already been completed for this user.")
  else if (← query (·.findLibraryByUser userId)).isSome then
    Program.fail (.conflict PersonalLibrary.alreadyHasLibrary)
  else
    let encryptedDataKey ← Program.ofExcept (wrapDataKey P masterKey drawn.nonce drawn.dataKey)
    let library ← PersonalLibrary.create (PersonalLibrary.serverMode drawn userId encryptedDataKey)
    let libDir := FsService.libraryRoot config library.id
    match ← (onFiles (createLibraryDirectory libDir library.id)).outcome with
    | .error e =>
        let _ ← (PersonalLibrary.deleteById library.id).outcome
        Program.fail e
    | .ok () =>
        changeKeys (·.insertLibraryKey library.id drawn.dataKey)
        match ← (User.markSetupComplete drawn.now userId).outcome with
        | .error e =>
            -- Roll back the key, the directory and the row.
            changeKeys (·.removeLibraryKey library.id)
            let _ ← onFiles (fsCall (.removeDirAll libDir))
            let _ ← (PersonalLibrary.deleteById library.id).outcome
            Program.fail e
        | .ok () => return library

/-- Load all server-mode library data keys at startup. -/
def loadServerModeKeys (P : Primitives) (masterKey : MasterKey) : ServiceProgram Nat := do
  let rows ← query (·.serverModeLibraries)
  SpaceService.loadKeys P masterKey (·.encryptedDataKey)
    (fun library dataKey => (·.insertLibraryKey library.id dataKey)) rows

end LibraryService

end IronDrive
