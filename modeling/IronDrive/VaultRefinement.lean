import IronDrive.LibServer
import IronDrive.VaultSteps

/-! The server over encrypted trees refines one plain vault for each library and space. -/

namespace IronDrive

open Lib FileTree PathSafety FsService CryptoService

/-- A request on one of the trees, with the keys that are unlocked when it is made. -/
structure TreeRequest where
  tree : UserTree
  unlockState : UnlockState
  request : FileRequest

section Servers

variable (P : Primitives) (mimeFromFilename : String → Option String) (facts : EntryFacts) (config : AppConfig)
  (oracle : Nat → Choice)

/-- The server: a request runs on the disk. -/
def serveRequest (r : TreeRequest) (disk : Disk) : Except AppError (Reply String Bytes) × Disk :=
  (r.request.program P mimeFromFilename facts config r.unlockState r.tree).run (entryHandler oracle) disk

/-- Vaults: a request goes to the vault of its tree. -/
noncomputable def answerRequest (r : TreeRequest) (vaults : UserTree → Vault String Bytes) :
    Reply String Bytes × (UserTree → Vault String Bytes) :=
  let settled := (vaults r.tree).answer readPath isListed (r.tree.key r.unlockState ≠ none) r.request.plain
  (settled.1, Function.update vaults r.tree settled.2)

end Servers

/-- The live trees store their vaults, each under its own key, and nothing on the disk is a link. -/
structure StoresAll (P : Primitives) (config : AppConfig) (keys : UserTree → DataKey) (live : UserTree → Prop)
    (t : FileTree) (vaults : UserTree → Vault String Bytes) : Prop where
  linkFree : t.LinkFree
  stores : ∀ tree, live tree → Stores P (keys tree) t (tree.root config) (vaults tree)

/-- The request is on a live tree that is locked or unlocked with its own key, and uploads what the cipher takes. -/
structure TreeRequest.Fits (keys : UserTree → DataKey) (live : UserTree → Prop) (r : TreeRequest) : Prop where
  live : live r.tree
  key : ∀ key, r.tree.key r.unlockState = some key → key = keys r.tree
  short : ∀ nonce userPath data writeVerify, r.request = .uploadFile nonce userPath data writeVerify →
    data.length ≤ maxPlaintextLen

/-- The roots of two trees lie apart. -/
theorem roots_apart {config : AppConfig} {tree tree' : UserTree} (hne : tree ≠ tree') (names : List String) :
    ¬ tree.root config <+: tree'.root config ++ names := by
  intro hpre
  cases tree with
  | library id =>
      cases tree' with
      | library id' =>
          simp only [UserTree.root, libraryRoot, List.append_assoc, List.prefix_append_right_inj, List.cons_append,
            List.nil_append, List.cons_prefix_cons, List.nil_prefix, and_true, true_and] at hpre
          exact hne (by rw [hpre])
      | space id' =>
          simp [UserTree.root, libraryRoot, spaceRoot, List.append_assoc, List.prefix_append_right_inj] at hpre
  | space id =>
      cases tree' with
      | library id' =>
          simp [UserTree.root, libraryRoot, spaceRoot, List.append_assoc, List.prefix_append_right_inj] at hpre
      | space id' =>
          simp only [UserTree.root, spaceRoot, List.append_assoc, List.prefix_append_right_inj, List.cons_append,
            List.nil_append, List.cons_prefix_cons, List.nil_prefix, and_true, true_and] at hpre
          exact hne (by rw [hpre])

section Refinement

variable {P : Primitives} {config : AppConfig}
  {oracle : Nat → Choice} {keys : UserTree → DataKey} {live : UserTree → Prop}
  {vaults : UserTree → Vault String Bytes} {t : FileTree}

theorem requireDataKey_eq (unlockState : UnlockState) (id : String) :
    requireDataKey unlockState id = heldKey (unlockState.getLibraryKey id) := rfl

theorem requireSpaceKey_eq (unlockState : UnlockState) (id : String) :
    requireSpaceKey unlockState id = heldKey (unlockState.getSpaceKey id) := rfl

/-- A request settles as on the vault of its tree. -/
theorem TreeRequest.settles (mimeFromFilename : String → Option String) (facts : EntryFacts) (hP : P.Lawful)
    (hord : ∀ tree, live tree → ∀ name ∈ tree.root config, Ordinary name)
    {r : TreeRequest} (hfits : r.Fits keys live) (h : StoresAll P config keys live t vaults) :
    SettlesAs P (keys r.tree) t (r.tree.root config)
      (r.request.program P mimeFromFilename facts config r.unlockState r.tree)
      ((vaults r.tree).answer readPath isListed (r.tree.key r.unlockState ≠ none) r.request.plain) := by
  obtain ⟨tree, unlockState, request⟩ := r
  obtain ⟨hlive, hkey, hshort⟩ := hfits
  have hfree := h.linkFree
  have hstores := h.stores tree hlive
  have hnames := hord tree hlive
  cases request with
  | createDirectory userPath =>
      cases tree with
      | library id => exact mkdir_settles hfree hnames hstores userPath
      | space id => exact mkdir_settles hfree hnames hstores userPath
  | uploadFile nonce userPath data writeVerify =>
      have hfit := hshort nonce userPath data writeVerify rfl
      have hput := put_settles mimeFromFilename hfree hnames hstores hP userPath nonce data
        writeVerify hfit hkey
      cases tree with
      | library id =>
          rw [UserTree.key, ← requireDataKey_eq] at hput
          exact hput
      | space id =>
          rw [UserTree.key, ← requireSpaceKey_eq] at hput
          exact hput
  | downloadFile userPath =>
      have hfetch := fetch_settles mimeFromFilename hfree hnames hstores userPath hkey
      cases tree with
      | library id =>
          rw [UserTree.key, ← requireDataKey_eq] at hfetch
          exact hfetch
      | space id =>
          rw [UserTree.key, ← requireSpaceKey_eq] at hfetch
          exact hfetch
  | listDirectory userPath checkIntegrity =>
      cases tree with
      | library id => exact list_settles facts hfree hnames hstores userPath _ checkIntegrity
      | space id => exact list_settles facts hfree hnames hstores userPath _ checkIntegrity
  | renameEntry oldPath newPath =>
      cases tree with
      | library id => exact move_settles hfree hnames hstores "library" oldPath newPath
      | space id => exact move_settles hfree hnames hstores "space" oldPath newPath
  | deleteEntry userPath =>
      cases tree with
      | library id => exact remove_settles hfree hnames hstores "library" userPath
      | space id => exact remove_settles hfree hnames hstores "space" userPath

/-- One request: the same reply, and every live tree stores its vault again. -/
theorem serveRequest_refines (mimeFromFilename : String → Option String) (facts : EntryFacts) (hP : P.Lawful)
    (hquiet : QuietOracle oracle)
    (hord : ∀ tree, live tree → ∀ name ∈ tree.root config, Ordinary name) {r : TreeRequest}
    (hfits : r.Fits keys live) {disk : Disk} (h : StoresAll P config keys live disk.tree vaults) :
    RepliesAs (serveRequest P mimeFromFilename facts config oracle r disk).1 (answerRequest r vaults).1 ∧
      StoresAll P config keys live (serveRequest P mimeFromFilename facts config oracle r disk).2.tree
        (answerRequest r vaults).2 := by
  obtain ⟨hreply, hleaves⟩ := run_of_entry_ensures hquiet
    (TreeRequest.settles mimeFromFilename facts hP hord hfits h)
  refine ⟨hreply, hleaves.linkFree, fun tree htree => ?_⟩
  by_cases heq : tree = r.tree
  · rw [heq]
    simp only [answerRequest, Function.update_self]
    exact hleaves.stores
  · simp only [answerRequest, Function.update_of_ne heq]
    intro names hshown
    have hframe : (serveRequest P mimeFromFilename facts config oracle r disk).2.tree.node (tree.root config ++ names) =
        disk.tree.node (tree.root config ++ names) := hleaves.outside _ (roots_apart (Ne.symm heq) names)
    rw [hframe]
    exact h.stores tree htree names hshown

theorem serveAll_refines (mimeFromFilename : String → Option String) (facts : EntryFacts) (hP : P.Lawful)
    (hquiet : QuietOracle oracle) (hord : ∀ tree, live tree → ∀ name ∈ tree.root config, Ordinary name)
    {requests : List TreeRequest} (hfits : ∀ r ∈ requests, r.Fits keys live) {disk : Disk}
    (h : StoresAll P config keys live disk.tree vaults) :
    List.Forall₂ RepliesAs (serveAll (serveRequest P mimeFromFilename facts config oracle) requests disk).1
      (serveAll answerRequest requests vaults).1 ∧
    StoresAll P config keys live (serveAll (serveRequest P mimeFromFilename facts config oracle) requests disk).2.tree
      (serveAll answerRequest requests vaults).2 := by
  apply serveAll_simulates (R := fun (disk : Disk) vaults => StoresAll P config keys live disk.tree vaults) requests _ h
  intro r hr disk vaults hstores
  exact serveRequest_refines mimeFromFilename facts hP hquiet hord (hfits r hr) hstores

/-- The encrypted trees refine the plain vaults: whatever requests are made on any libraries and spaces, one after
the other, each is answered as the plain vault of its tree would answer it, with the same contents, the same
listing or the same status of refusal; and afterwards each tree stores what its vault has become. -/
theorem requests_refine_vaults (P : Primitives) (hP : P.Lawful) (mimeFromFilename : String → Option String)
    (facts : EntryFacts) (config : AppConfig) (oracle : Nat → Choice) (hquiet : QuietOracle oracle)
    (keys : UserTree → DataKey) (live : UserTree → Prop)
    (hord : ∀ tree, live tree → ∀ name ∈ tree.root config, Ordinary name) (requests : List TreeRequest)
    (hfits : ∀ r ∈ requests, r.Fits keys live) (disk : Disk) (vaults : UserTree → Vault String Bytes)
    (h : StoresAll P config keys live disk.tree vaults) :
    List.Forall₂ RepliesAs (serveAll (serveRequest P mimeFromFilename facts config oracle) requests disk).1
      (serveAll answerRequest requests vaults).1 ∧
    StoresAll P config keys live (serveAll (serveRequest P mimeFromFilename facts config oracle) requests disk).2.tree
      (serveAll answerRequest requests vaults).2 :=
  serveAll_refines mimeFromFilename facts hP hquiet hord hfits h

/-! ### The last upload -/

theorem RepliesAs.reply_eq {found reply : Reply String Bytes} (h : RepliesAs (.ok found) reply) : reply = found := by
  cases h
  rfl

theorem RepliesAs.value_eq {result : Except AppError (Reply String Bytes)} {data : Bytes}
    (h : RepliesAs result (.value data)) : result = .ok (.value data) := by
  cases h
  rfl

/-- A request that takes the file at a path of a tree away, or puts another there. -/
def TreeRequest.Disturbs (tree : UserTree) (userPath : String) (r : TreeRequest) : Prop :=
  r.tree = tree ∧ ∃ path, readPath userPath = some path ∧ Vault.Disturbs readPath path r.request.plain

theorem answerRequest_keeps {tree : UserTree} {userPath : String} {path : List String} {data : Bytes}
    (hread : readPath userPath = some path) {r : TreeRequest} (hr : ¬ r.Disturbs tree userPath)
    (hitem : (vaults tree).item path = some (.value data)) :
    ((answerRequest r vaults).2 tree).item path = some (.value data) := by
  by_cases heq : r.tree = tree
  · have hkept : ¬ Vault.Disturbs readPath path r.request.plain := fun h => hr ⟨heq, path, hread, h⟩
    subst heq
    simp only [answerRequest, Function.update_self]
    exact Vault.answer_keeps hitem hkept
  · simp only [answerRequest, Function.update_of_ne (Ne.symm heq)]
    exact hitem

theorem readPath_eq_some {userPath : String} {path : List String} (hread : readPath userPath = some path)
    (hpath : path ≠ []) : userPath ≠ "" := by
  intro hempty
  have hroot : readPath userPath = some [] := if_pos hempty
  rw [hread] at hroot
  cases hroot
  exact hpath rfl

/-- An upload that is answered with success has put its data. -/
theorem upload_done {tree : UserTree} {unlockState : UnlockState} {nonce : FixedBytes 12} {userPath : String}
    {data : Bytes} {writeVerify : Bool}
    (h : (answerRequest ⟨tree, unlockState, .uploadFile nonce userPath data writeVerify⟩ vaults).1 = .done) :
    ∃ path, readPath userPath = some path ∧ path ≠ [] ∧
      ((answerRequest ⟨tree, unlockState, .uploadFile nonce userPath data writeVerify⟩ vaults).2 tree).item path =
        some (.value data) := by
  simp only [answerRequest, FileRequest.plain, Vault.answer, Vault.whenUnlocked, Function.update_self] at h ⊢
  split_ifs at h ⊢ with hroot hkey
  cases hread : readPath userPath with
  | none =>
      rw [Vault.reading, hread] at h
      cases h
  | some path =>
      rw [Vault.reading, hread] at h
      refine ⟨path, rfl, fun hnil => hroot (by rw [hread, hnil]), ?_⟩
      rw [Vault.reading, hread]
      exact Vault.put_done h

/-- A download gives the data of the last upload: after an upload that succeeds, whatever requests are made in
between on any libraries and spaces, a download under the same path from the same tree, unlocked, returns exactly
the data, unless one of those requests uploads to this path, or renames or deletes what is there or above. -/
theorem download_returns_upload (P : Primitives) (hP : P.Lawful) (mimeFromFilename : String → Option String)
    (facts : EntryFacts) (config : AppConfig) (oracle : Nat → Choice) (hquiet : QuietOracle oracle)
    (keys : UserTree → DataKey) (live : UserTree → Prop)
    (hord : ∀ tree, live tree → ∀ name ∈ tree.root config, Ordinary name) (disk : Disk)
    (vaults : UserTree → Vault String Bytes) (h : StoresAll P config keys live disk.tree vaults)
    (tree : UserTree) (unlockState later : UnlockState) (nonce : FixedBytes 12) (userPath : String) (data : Bytes)
    (writeVerify : Bool)
    (hupload : (TreeRequest.mk tree unlockState (.uploadFile nonce userPath data writeVerify)).Fits keys live)
    (hdone : (serveRequest P mimeFromFilename facts config oracle
      ⟨tree, unlockState, .uploadFile nonce userPath data writeVerify⟩ disk).1 = .ok .done)
    (between : List TreeRequest) (hbetween : ∀ r ∈ between, r.Fits keys live ∧ ¬ r.Disturbs tree userPath)
    (hkey : tree.key later = some (keys tree)) :
    (serveRequest P mimeFromFilename facts config oracle ⟨tree, later, .downloadFile userPath⟩
      (serveAll (serveRequest P mimeFromFilename facts config oracle) between
        (serveRequest P mimeFromFilename facts config oracle
          ⟨tree, unlockState, .uploadFile nonce userPath data writeVerify⟩ disk).2).2).1 = .ok (.value data) := by
  obtain ⟨hreply, hstores⟩ := serveRequest_refines mimeFromFilename facts hP hquiet
    hord hupload h
  rw [hdone] at hreply
  obtain ⟨path, hread, hpath, hitem⟩ := upload_done hreply.reply_eq
  obtain ⟨-, hlast⟩ := serveAll_refines mimeFromFilename facts hP hquiet hord (fun r hr => (hbetween r hr).1) hstores
  have hkept := serveAll_invariant
    (I := fun vaults : UserTree → Vault String Bytes => (vaults tree).item path = some (.value data)) between
    (fun r hr vaults hs => (answerRequest_keeps hread (hbetween r hr).2 hs :
      ((answerRequest r vaults).2 tree).item path = some (.value data))) hitem
  have hfits : (TreeRequest.mk tree later (.downloadFile userPath)).Fits keys live :=
    ⟨hupload.live, fun key hfound => by rw [hkey] at hfound; exact (Option.some.inj hfound).symm,
      fun _ _ _ _ hrequest => by cases hrequest⟩
  obtain ⟨hfetched, -⟩ := serveRequest_refines mimeFromFilename facts hP hquiet
    hord hfits hlast
  have hanswer : ∀ vaults : UserTree → Vault String Bytes, (vaults tree).item path = some (.value data) →
      (answerRequest ⟨tree, later, .downloadFile userPath⟩ vaults).1 = .value data := by
    intro vaults hvalue
    have hunlocked : tree.key later ≠ none := by rw [hkey]; simp
    simp only [answerRequest, FileRequest.plain, Vault.answer]
    rw [Stores.whenUnlocked_of_key (readPath_eq_some hread hpath) hunlocked, Vault.reading, hread]
    exact Vault.fetch_value hpath hvalue
  rw [hanswer _ hkept] at hfetched
  exact hfetched.value_eq

end Refinement

/-- Only the library `l` is there. -/
def onlyLibrary (tree : UserTree) : Prop := tree = .library "l"

theorem onlyLibrary_ordinary (tree : UserTree) (h : onlyLibrary tree) :
    ∀ name ∈ tree.root sampleConfig, Ordinary name := by
  rw [h]
  exact sampleRoot_ordinary

theorem emptyLibrary_stores : StoresAll plainPrimitives sampleConfig (fun _ => zeroKey) onlyLibrary
    emptyLibrary.tree fun _ => .empty where
  linkFree := emptyLibrary_linkFree
  stores tree htree names _ := by
    rw [htree]
    show Seals plainPrimitives zeroKey (if names = [] then some .folder else none)
      (emptyLibrary.tree.node (["libraries", "l"] ++ names))
    by_cases hnames : names = []
    · rw [hnames, if_pos rfl, List.append_nil, emptyLibrary_node, if_pos rfl]
      exact .folder
    · rw [if_neg hnames, emptyLibrary_empty names hnames]
      exact .missing

def uploadRequest : TreeRequest :=
  ⟨.library "l", sampleUnlocked, .uploadFile ⟨List.replicate 12 0, twelve_zeros⟩ "docs/a" [1, 2] true⟩

def renameRequest : TreeRequest := ⟨.library "l", sampleUnlocked, .renameEntry "docs" "docs/b/c"⟩

theorem uploadRequest_fits : uploadRequest.Fits (fun _ => zeroKey) onlyLibrary where
  live := rfl
  key _ hkey := (Option.some.inj hkey).symm
  short nonce userPath data writeVerify h := by
    cases h
    decide

theorem renameRequest_fits : renameRequest.Fits (fun _ => zeroKey) onlyLibrary where
  live := rfl
  key _ hkey := (Option.some.inj hkey).symm
  short nonce userPath data writeVerify h := by cases h

theorem sampleRequests_fit : ∀ r ∈ [uploadRequest, renameRequest], r.Fits (fun _ => zeroKey) onlyLibrary := by
  intro r hr
  rcases List.mem_cons.mp hr with heq | hr
  · rw [heq]
    exact uploadRequest_fits
  · rw [List.mem_singleton.mp hr]
    exact renameRequest_fits

theorem requests_refine_vaults_upload :
    List.Forall₂ RepliesAs
      (serveAll (serveRequest plainPrimitives (fun _ => none) plainFacts sampleConfig calmOracle)
        [uploadRequest, renameRequest] emptyLibrary).1
      (serveAll answerRequest [uploadRequest, renameRequest] fun _ => .empty).1 ∧
    StoresAll plainPrimitives sampleConfig (fun _ => zeroKey) onlyLibrary
      (serveAll (serveRequest plainPrimitives (fun _ => none) plainFacts sampleConfig calmOracle)
        [uploadRequest, renameRequest] emptyLibrary).2.tree
      (serveAll answerRequest [uploadRequest, renameRequest] fun _ => .empty).2 :=
  requests_refine_vaults plainPrimitives plainPrimitives_lawful (fun _ => none) plainFacts sampleConfig calmOracle
    calmOracle_quiet (fun _ => zeroKey) onlyLibrary onlyLibrary_ordinary [uploadRequest, renameRequest]
    sampleRequests_fit emptyLibrary _ emptyLibrary_stores

def deleteRequest : TreeRequest := ⟨.library "l", sampleUnlocked, .deleteEntry "docs/b"⟩

theorem deleteRequest_fits : deleteRequest.Fits (fun _ => zeroKey) onlyLibrary where
  live := rfl
  key _ hkey := (Option.some.inj hkey).symm
  short nonce userPath data writeVerify h := by cases h

theorem deleteRequest_elsewhere : ¬ deleteRequest.Disturbs (.library "l") "docs/a" := by
  intro ⟨_, path, hread, taken, htaken, hpre⟩
  have hpath : readPath "docs/a" = some ["docs", "a"] := by decide +kernel
  have hdeleted : readPath "docs/b" = some ["docs", "b"] := by decide +kernel
  rw [hpath] at hread
  rw [hdeleted] at htaken
  cases hread
  cases htaken
  revert hpre
  decide

def isDone (result : Except AppError (Reply String Bytes)) : Bool :=
  match result with
  | .ok .done => true
  | _ => false

theorem ok_done_of_isDone {result : Except AppError (Reply String Bytes)} (h : isDone result = true) :
    result = .ok .done := by
  unfold isDone at h
  split at h
  · rfl
  · cases h

theorem uploadRequest_done : (serveRequest plainPrimitives (fun _ => none) plainFacts sampleConfig calmOracle
    uploadRequest emptyLibrary).1 = .ok .done := ok_done_of_isDone (by decide +kernel)

theorem download_returns_upload_docs :
    (serveRequest plainPrimitives (fun _ => none) plainFacts sampleConfig calmOracle
      ⟨.library "l", sampleUnlocked, .downloadFile "docs/a"⟩
      (serveAll (serveRequest plainPrimitives (fun _ => none) plainFacts sampleConfig calmOracle) [deleteRequest]
        (serveRequest plainPrimitives (fun _ => none) plainFacts sampleConfig calmOracle uploadRequest
          emptyLibrary).2).2).1 = .ok (.value [1, 2]) :=
  download_returns_upload plainPrimitives plainPrimitives_lawful (fun _ => none) plainFacts sampleConfig calmOracle
    calmOracle_quiet (fun _ => zeroKey) onlyLibrary onlyLibrary_ordinary emptyLibrary _ emptyLibrary_stores
    (.library "l") sampleUnlocked sampleUnlocked ⟨List.replicate 12 0, twelve_zeros⟩ "docs/a" [1, 2] true
    uploadRequest_fits uploadRequest_done [deleteRequest]
    (by
      intro r hr
      rw [List.mem_singleton.mp hr]
      exact ⟨deleteRequest_fits, deleteRequest_elsewhere⟩)
    rfl

end IronDrive
