import Mathlib.Logic.Function.Basic
import IronDrive.CryptoPrimitives

/-! The data keys that the running server holds in memory. -/

namespace IronDrive

/-- The data keys of the currently unlocked libraries and spaces. -/
structure UnlockState where
  libraries : String → Option DataKey
  spaces : String → Option DataKey

namespace UnlockState

variable (unlockState : UnlockState)

def new : UnlockState := ⟨fun _ => none, fun _ => none⟩

def insertLibraryKey (libraryId : String) (key : DataKey) : UnlockState :=
  { unlockState with libraries := Function.update unlockState.libraries libraryId (some key) }

def getLibraryKey (libraryId : String) : Option DataKey := unlockState.libraries libraryId

def removeLibraryKey (libraryId : String) : UnlockState :=
  { unlockState with libraries := Function.update unlockState.libraries libraryId none }

def insertSpaceKey (spaceId : String) (key : DataKey) : UnlockState :=
  { unlockState with spaces := Function.update unlockState.spaces spaceId (some key) }

def getSpaceKey (spaceId : String) : Option DataKey := unlockState.spaces spaceId

def removeSpaceKey (spaceId : String) : UnlockState :=
  { unlockState with spaces := Function.update unlockState.spaces spaceId none }

/-- Remove all keys. -/
def clearAll (_ : UnlockState) : UnlockState := new

/-- A key under a new identifier can be taken back. -/
theorem removeLibraryKey_insertLibraryKey {unlockState : UnlockState} {libraryId : String} {key : DataKey}
    (hnone : unlockState.libraries libraryId = none) :
    (unlockState.insertLibraryKey libraryId key).removeLibraryKey libraryId = unlockState := by
  have hlibraries : Function.update unlockState.libraries libraryId none = unlockState.libraries := by
    rw [← hnone]
    exact Function.update_eq_self libraryId unlockState.libraries
  simp only [insertLibraryKey, removeLibraryKey, Function.update_idem, hlibraries]

end UnlockState

end IronDrive
