import IronDrive.LibVault
import IronDrive.EntryRefusals
import IronDrive.ListingLookup

/-! The requests on the files of a library or a space, and what it means that a tree of encrypted files stores a
plain one. -/

namespace IronDrive

open Lib FileTree PathSafety FsService CryptoService

/-- A tree of user files. -/
inductive UserTree
  | library (id : String)
  | space (id : String)
  deriving DecidableEq

namespace UserTree

def id : UserTree → String
  | library id => id
  | space id => id

def root (config : AppConfig) : UserTree → Path
  | library id => libraryRoot config id
  | space id => spaceRoot config id

def key (unlockState : UnlockState) : UserTree → Option DataKey
  | library id => unlockState.getLibraryKey id
  | space id => unlockState.getSpaceKey id

end UserTree

inductive FileRequest
  | createDirectory (userPath : String)
  | uploadFile (nonce : FixedBytes 12) (userPath : String) (data : Bytes) (writeVerify : Bool)
  | downloadFile (userPath : String)
  | listDirectory (userPath : String) (checkIntegrity : Bool)
  | renameEntry (oldPath newPath : String)
  | deleteEntry (userPath : String)

namespace FileRequest

/-- What a listing says of each name: whether it is a directory. -/
def listedNames (entries : List FsEntry) (name : String) : Option Bool :=
  (entries.find? fun entry => entry.name = name).map FsEntry.isDir

variable (P : Primitives) (mimeFromFilename : String → Option String) (facts : EntryFacts) (config : AppConfig)
  (unlockState : UnlockState)

/-- A request on a tree, up to what it answers. -/
def program (tree : UserTree) : FileRequest → EntryProgram (Reply String Bytes)
  | createDirectory userPath => do
      let _ ← amongEntries (match tree with
        | .library id => FsService.createDirectory config id userPath
        | .space id => FsService.createSpaceDirectory config id userPath)
      return .done
  | uploadFile nonce userPath data writeVerify => do
      let _ ← amongEntries (match tree with
        | .library id => uploadFileOwned P mimeFromFilename config unlockState id nonce userPath data writeVerify
        | .space id => uploadSpaceFile P mimeFromFilename config unlockState id nonce userPath data writeVerify)
      return .done
  | downloadFile userPath => do
      let download ← amongEntries (match tree with
        | .library id => FsService.downloadFile P mimeFromFilename config unlockState id userPath
        | .space id => downloadSpaceFile P mimeFromFilename config unlockState id userPath)
      return .value download.data
  | listDirectory userPath checkIntegrity => do
      let entries ← amongEntries (match tree with
        | .library id => FsService.listDirectory P facts config unlockState id userPath checkIntegrity
        | .space id => listSpaceDirectory P facts config unlockState id userPath checkIntegrity)
      return .names (listedNames entries)
  | renameEntry oldPath newPath => do
      let _ ← match tree with
        | .library id => FsService.renameEntry config id oldPath newPath
        | .space id => renameSpaceEntry config id oldPath newPath
      return .done
  | deleteEntry userPath => do
      match tree with
        | .library id => FsService.deleteEntry config id userPath
        | .space id => deleteSpaceEntry config id userPath
      return .done

/-- The request without what is only about encryption and display. -/
def plain : FileRequest → VaultRequest String Bytes
  | createDirectory userPath => .mkdir userPath
  | uploadFile _ userPath data _ => .put userPath data
  | downloadFile userPath => .fetch userPath
  | listDirectory userPath _ => .list userPath
  | renameEntry oldPath newPath => .move oldPath newPath
  | deleteEntry userPath => .remove userPath

end FileRequest

/-- The path that a request names; the empty one is the root. -/
def readPath (userPath : String) : Option (List String) :=
  if userPath = "" then some []
  else
    match parseUserPath userPath with
    | .ok components => some components
    | .error _ => none

/-- The names that a listing shows. -/
def isListed (name : String) : Bool := !isHidden name

/-- None of the names is hidden: requests name no other paths. -/
def ShownPath (names : List String) : Prop := ∀ name ∈ names, isListed name = true

/-- What is stored for an item: a directory, or a file that decrypts to the value. -/
inductive Seals (P : Primitives) (key : DataKey) : Option (Item Bytes) → Option Node → Prop
  | missing : Seals P key none none
  | folder : Seals P key (some .folder) (some .dir)
  | value {content blob : Bytes} (h : readBytes P key blob = .ok content) :
      Seals P key (some (.value content)) (some (.file blob))

/-- The tree below the root stores the vault, each value in a file encrypted under the key. What is hidden there is
the server's own, such as the file that marks the root. -/
def Stores (P : Primitives) (key : DataKey) (t : FileTree) (root : Path) (w : Vault String Bytes) : Prop :=
  ∀ names, ShownPath names → Seals P key (w.item names) (t.node (root ++ names))

/-- The status a refusal is answered with. -/
def refusalStatus : Refusal → Nat
  | .malformed => 400
  | .locked => 423
  | .missing => 404
  | .occupied => 409
  | .failed => 500

/-- The result of a request is this reply: the same answer, or the same status. -/
inductive RepliesAs : Except AppError (Reply String Bytes) → Reply String Bytes → Prop
  | ok {reply : Reply String Bytes} : RepliesAs (.ok reply) reply
  | error {error : AppError} {why : Refusal} (h : error.status = refusalStatus why) :
      RepliesAs (.error error) (.refused why)

namespace ShownPath

variable {names front rest : List String} {name : String}

theorem nil : ShownPath [] := fun _ hname => by cases hname

theorem of_prefix (h : ShownPath names) (hpre : front <+: names) : ShownPath front :=
  fun name hname => h name (hpre.subset hname)

theorem append (h : ShownPath names) (hrest : ShownPath rest) : ShownPath (names ++ rest) := by
  intro name hname
  rcases List.mem_append.mp hname with hleft | hright
  · exact h name hleft
  · exact hrest name hright

theorem concat (h : ShownPath names) (hname : isListed name = true) : ShownPath (names ++ [name]) :=
  h.append fun other hother => by rwa [List.mem_singleton.mp hother]

theorem drop (h : ShownPath names) (count : Nat) : ShownPath (names.drop count) :=
  fun name hname => h name (List.mem_of_mem_drop hname)

/-- A well-formed path has no hidden name. -/
theorem of_wellFormed {userPath : String} (hwell : WellFormedPath userPath) : ShownPath (splitComponents userPath) := by
  intro name hname
  rw [isListed, Bool.not_eq_true', isHidden_eq_false]
  exact (hwell.names name hname).not_hidden

theorem of_accepts {t : FileTree} {root : Path} {userPath : String} (haccepts : Accepts t root userPath) :
    ShownPath (splitComponents userPath) := .of_wellFormed haccepts.wellFormed

end ShownPath

namespace Stores

variable {P : Primitives} {key : DataKey} {t : FileTree} {root : Path} {w : Vault String Bytes} {userPath : String}
  {names : List String}

theorem node_none (h : Stores P key t root w) (hshown : ShownPath names) :
    t.node (root ++ names) = none ↔ w.item names = none := by
  have hnames := h names hshown
  constructor
  · intro hnode
    rw [hnode] at hnames
    generalize w.item names = item at hnames
    cases hnames
    rfl
  · intro hitem
    rw [hitem] at hnames
    generalize t.node (root ++ names) = node at hnames
    cases hnames
    rfl

theorem node_dir (h : Stores P key t root w) (hshown : ShownPath names) :
    t.node (root ++ names) = some .dir ↔ w.item names = some .folder := by
  have hnames := h names hshown
  constructor
  · intro hnode
    rw [hnode] at hnames
    generalize w.item names = item at hnames
    cases hnames
    rfl
  · intro hitem
    rw [hitem] at hnames
    generalize t.node (root ++ names) = node at hnames
    cases hnames
    rfl

/-- A value is stored in a file that decrypts to it. -/
theorem node_value (h : Stores P key t root w) (hshown : ShownPath names) {content : Bytes}
    (hitem : w.item names = some (.value content)) :
    ∃ blob, t.node (root ++ names) = some (.file blob) ∧ readBytes P key blob = .ok content := by
  have hnames := h names hshown
  rw [hitem] at hnames
  generalize t.node (root ++ names) = node at hnames
  cases hnames with
  | value hread => exact ⟨_, rfl, hread⟩

theorem node_file (h : Stores P key t root w) (hshown : ShownPath names) {blob : Bytes}
    (hnode : t.node (root ++ names) = some (.file blob)) : ∃ content, w.item names = some (.value content) := by
  have hnames := h names hshown
  rw [hnode] at hnames
  generalize w.item names = item at hnames
  cases hnames with
  | value hread => exact ⟨_, rfl⟩

theorem root_dir (h : Stores P key t root w) : t.node root = some .dir := by
  have hroot := (h.node_dir .nil).mpr w.root
  rwa [List.append_nil] at hroot

theorem canonicalize_root (h : Stores P key t root w) (hord : ∀ name ∈ root, Ordinary name) :
    t.canonicalize root = .ok root := by
  have hresolved := resolved_of_node hord h.root_dir fun absolute target => by simp
  exact canonicalize_of_resolved hresolved (by rw [h.root_dir]; simp)

theorem clear_iff (h : Stores P key t root w) (hshown : ShownPath names) :
    w.Clear names ↔ Passable t root names := by
  constructor
  · intro hclear front hfront hne content hnode
    obtain ⟨value, hvalue⟩ := h.node_file (hshown.of_prefix hfront) hnode
    exact hclear front hfront hne value hvalue
  · intro hpass front hfront hne content hitem
    obtain ⟨blob, hblob, -⟩ := h.node_value (hshown.of_prefix hfront) hitem
    exact hpass front hfront hne blob hblob

/-! ### Paths that a request names -/

theorem read_of_accepts (haccepts : Accepts t root userPath) : readPath userPath = some (splitComponents userPath) := by
  rw [readPath, if_neg haccepts.wellFormed.nonempty, (parseUserPath_ok_iff userPath _).mpr ⟨haccepts.wellFormed, rfl⟩]

theorem open_of_accepts (h : Stores P key t root w) (haccepts : Accepts t root userPath) :
    w.Open (splitComponents userPath) :=
  ⟨splitComponents_ne_nil userPath, (h.clear_iff (.of_accepts haccepts)).mpr haccepts.passable⟩

/-- An accepted path is read as its components. -/
theorem reading_of_accepts (haccepts : Accepts t root userPath)
    (next : List String → Reply String Bytes × Vault String Bytes) :
    w.reading readPath userPath next = next (splitComponents userPath) := by
  rw [Vault.reading, read_of_accepts haccepts]

/-- A path that is not accepted is refused where a value stands above it. -/
theorem reading_of_not_clear (h : Stores P key t root w) (hne : userPath ≠ "") (hnot : ¬ Accepts t root userPath)
    {next : List String → Reply String Bytes × Vault String Bytes}
    (hnext : ∀ path, ¬ w.Clear path → next path = (.refused .malformed, w)) :
    w.reading readPath userPath next = (.refused .malformed, w) := by
  unfold Vault.reading readPath
  rw [if_neg hne]
  cases hparse : parseUserPath userPath with
  | error error => rfl
  | ok components =>
      obtain ⟨hwell, rfl⟩ := (parseUserPath_ok_iff userPath components).mp hparse
      exact hnext _ fun hclear => hnot ⟨hwell, (h.clear_iff (.of_wellFormed hwell)).mp hclear⟩

/-- What may not change the root refuses every path that is not accepted. -/
theorem reading_of_not_accepts (h : Stores P key t root w) (hnot : ¬ Accepts t root userPath)
    {next : List String → Reply String Bytes × Vault String Bytes}
    (hnext : ∀ path, ¬ w.Open path → next path = (.refused .malformed, w)) :
    w.reading readPath userPath next = (.refused .malformed, w) := by
  by_cases hempty : userPath = ""
  · have hread : readPath userPath = some [] := if_pos hempty
    rw [Vault.reading, hread]
    exact hnext [] fun hopen => hopen.1 rfl
  · exact h.reading_of_not_clear hempty hnot fun path hclear => hnext path fun hopen => hclear hopen.2

theorem readPath_ne_root (hne : userPath ≠ "") : readPath userPath ≠ some [] := by
  rw [readPath, if_neg hne]
  cases hparse : parseUserPath userPath with
  | error error => simp
  | ok components =>
      obtain ⟨-, rfl⟩ := (parseUserPath_ok_iff userPath components).mp hparse
      simpa using splitComponents_ne_nil userPath

theorem whenUnlocked_of_key (hne : userPath ≠ "") {unlocked : Prop} (hunlocked : unlocked)
    (next : Reply String Bytes × Vault String Bytes) : w.whenUnlocked unlocked readPath userPath next = next := by
  rw [Vault.whenUnlocked, if_neg (readPath_ne_root hne), if_pos hunlocked]

theorem whenUnlocked_locked (hne : userPath ≠ "") {unlocked : Prop} (hlocked : ¬ unlocked)
    (next : Reply String Bytes × Vault String Bytes) :
    w.whenUnlocked unlocked readPath userPath next = (.refused .locked, w) := by
  rw [Vault.whenUnlocked, if_neg (readPath_ne_root hne), if_neg hlocked]

theorem whenUnlocked_root {unlocked : Prop} (next : Reply String Bytes × Vault String Bytes) :
    w.whenUnlocked unlocked readPath "" next = (.refused .malformed, w) := by
  have hread : readPath "" = some [] := if_pos rfl
  rw [Vault.whenUnlocked, if_pos hread]

end Stores

end IronDrive
