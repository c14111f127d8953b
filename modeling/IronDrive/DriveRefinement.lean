import IronDrive.DriveServer
import IronDrive.RegistryServices

/-! The server refines the drives that it is for: the registry, whose rows say who may open which library or space,
and for each of these a plain vault. -/

namespace IronDrive

open Lib FileTree CryptoService

/-- The rows, and a plain vault for each library and space. -/
structure Drives where
  db : Db
  vaults : UserTree → Vault String Bytes

namespace Drives

/-- Nothing is there yet. -/
def first : Drives := ⟨Db.empty, fun _ => .empty⟩

/-- What a request on files is answered, and what the vaults become: the vault of the tree that it opens answers. -/
noncomputable def reply (drive : DriveBackend) (drives : Drives) (call : FileCall) :
    Seen × (UserTree → Vault String Bytes) :=
  match drives.db.openTree drive.crates drive.primitives call with
  | .error status => (.error status, drives.vaults)
  | .ok tree =>
      if call.request.oversized drive.config = true then (.error 400, drives.vaults)
      else
        let settled := (drives.vaults tree).answer readPath isListed True call.request.plain
        (shown settled.1, Function.update drives.vaults tree settled.2)

/-- The vaults across an operation: a tree that is new or gone has an empty one. -/
def carry (drives : Drives) (db' : Db) : Drives where
  db := db'
  vaults tree := if drives.db.Has tree ∧ db'.Has tree then drives.vaults tree else .empty

theorem carry_of_kept {drives : Drives} {db' : Db} {tree : UserTree} (hold : drives.db.Has tree)
    (hnew : (drives.carry db').db.Has tree) : (drives.carry db').vaults tree = drives.vaults tree :=
  if_pos ⟨hold, hnew⟩

theorem carry_of_new {drives : Drives} {db' : Db} {tree : UserTree} (hold : ¬ drives.db.Has tree) :
    (drives.carry db').vaults tree = .empty := if_neg fun hboth => hold hboth.1

theorem carry_of_gone {drives : Drives} {db' : Db} {tree : UserTree} (hnew : ¬ (drives.carry db').db.Has tree) :
    (drives.carry db').vaults tree = .empty := if_neg fun hboth => hnew hboth.2

/-- What a call is answered, and what the drives become. The registry answers the operations and the calls on
sessions, a vault answers a request on files, and a restart changes nothing. -/
noncomputable def serve (drive : DriveBackend) (drives : Drives) : DriveCall → Seen × Drives
  | .operate request =>
      let outcome := Registry.settle drive.toBackend request drives.db
      (ended outcome, drives.carry (Registry.after drives.db outcome))
  | .attend now op =>
      let outcome := Registry.attend drive.crates drive.primitives now op drives.db
      (ended outcome, ⟨Registry.after drives.db outcome, drives.vaults⟩)
  | .files call =>
      ((drives.reply drive call).1,
        ⟨drives.db.afterGuard drive.crates drive.primitives call.now (.bearer call.authorization),
          (drives.reply drive call).2⟩)
  | .restart => (.ok .done, drives)

/-- One step of the drives. There is one for each call, and one answer. -/
def Step (drive : DriveBackend) (drives : Drives) (event : DriveEvent) (drives' : Drives) : Prop :=
  (event.answer, drives') = drives.serve drive event.call

end Drives

/-- The server stores the drives: the same rows, the keys of all trees, and below the root of each tree its vault,
encrypted under its key. Only drawn identifiers name trees, and a tree without a row has no directory. -/
structure Stored (drive : DriveBackend) (used : List String) (v : FileTree × Records) (drives : Drives) : Prop where
  rows : v.2.db = drives.db
  keys : KeysMirrored drive.primitives drive.masterKey v.2
  linkFree : v.1.LinkFree
  areas : ∀ area, area = "libraries" ∨ area = "spaces" → v.1.node (drive.config.dataDir ++ [area]) = some .dir
  named : ∀ tree, drives.db.Has tree → tree.id ∈ used ∧ Ordinary tree.id
  vacant : ∀ tree, ¬ drives.db.Has tree → v.1.node (tree.root drive.config) = none
  stores : ∀ tree, drives.db.Has tree → ∀ key, tree.key v.2.unlockState = some key →
    Stores drive.primitives key v.1 (tree.root drive.config) (drives.vaults tree)
  gone : ∀ tree, ¬ drives.db.Has tree → drives.vaults tree = .empty

variable {drive : DriveBackend} {used : List String} {v v' : FileTree × Records} {drives : Drives}
  {tree : UserTree} {P : Primitives} {key : DataKey} {t : FileTree} {base : Path} {name : String}

theorem node_furnish_of_not_below {root p : Path} (hp : ¬ root <+: p) (content : Bytes) :
    (furnish t root content).node p = t.node p := by
  have hroot : p ≠ root := fun heq => hp (heq ▸ List.prefix_rfl)
  have hmeta : p ≠ root ++ [metaFilename] := fun heq => hp (heq ▸ List.prefix_append _ _)
  rw [furnish, node_put_of_ne hmeta, node_put_of_ne hroot]

theorem linkFree_furnish (hfree : t.LinkFree) (root : Path) (content : Bytes) : (furnish t root content).LinkFree :=
  (hfree.put root (by simp)).put _ (by simp)

/-- A new directory stores the empty vault: its meta file is hidden. -/
theorem stores_furnish (h : t.Vacant base name) (content : Bytes) :
    Stores P key (furnish t (base ++ [name]) content) (base ++ [name]) .empty := by
  intro names hshown
  show Seals P key (if names = [] then some .folder else none) _
  by_cases hnames : names = []
  · rw [if_pos hnames, hnames, List.append_nil, (resolved_furnish h content).2]
    exact .folder
  · have hmeta : base ++ [name] ++ names ≠ base ++ [name] ++ [metaFilename] := by
      intro heq
      have hlisted := hshown metaFilename (by rw [List.append_cancel_left heq]; exact List.mem_singleton_self _)
      revert hlisted
      decide
    have hroot : base ++ [name] ++ names ≠ base ++ [name] := by simpa using hnames
    rw [if_neg hnames, furnish, node_put_of_ne hmeta, node_put_of_ne hroot,
      node_append_of_not_dir (by rw [h.missing]; simp) hnames]
    exact .missing

/-- What is stored is below the root. -/
theorem Stores.congr {root : Path} {w : Vault String Bytes} {t' : FileTree} (h : Stores P key t root w)
    (hsame : ∀ names, t'.node (root ++ names) = t.node (root ++ names)) : Stores P key t' root w := by
  intro names hshown
  rw [hsame]
  exact h names hshown

theorem ordinary_area {area : String} (harea : area = "libraries" ∨ area = "spaces") : Ordinary area := by
  obtain rfl | rfl := harea
  · constructor <;> decide
  · constructor <;> decide

/-- The directories of two trees lie apart. -/
theorem root_apart {config : AppConfig} {tree other : UserTree} (hne : tree ≠ other) :
    ¬ tree.root config <+: other.root config := by
  have hapart : ¬ tree.root config <+: other.root config ++ [] := roots_apart hne []
  rwa [List.append_nil] at hapart

theorem root_eq (config : AppConfig) (tree : UserTree) :
    ∃ area, (area = "libraries" ∨ area = "spaces") ∧ tree.root config = (config.dataDir ++ [area]) ++ [tree.id] := by
  cases tree with
  | library id => exact ⟨"libraries", Or.inl rfl, by simp [UserTree.root, UserTree.id, FsService.libraryRoot]⟩
  | space id => exact ⟨"spaces", Or.inr rfl, by simp [UserTree.root, UserTree.id, FsService.spaceRoot]⟩

/-- The directory of a tree is not above one that holds the trees. -/
theorem root_not_above (config : AppConfig) (tree : UserTree) {area : String} :
    ¬ tree.root config <+: config.dataDir ++ [area] := by
  obtain ⟨area', -, hroot⟩ := root_eq config tree
  rw [hroot]
  intro hpre
  have hlength := hpre.length_le
  simp at hlength

namespace Stored

variable (h : Stored drive used v drives)

include h

theorem has_iff (tree : UserTree) : v.2.db.Has tree ↔ drives.db.Has tree := by rw [h.rows]

/-- Every tree is unlocked. -/
theorem unlocked (hhas : drives.db.Has tree) : ∃ key, tree.key v.2.unlockState = some key := by
  rw [← h.has_iff] at hhas
  apply Option.isSome_iff_exists.mp
  cases tree with
  | library id => exact (h.keys.libraries.isSome_iff id).mpr hhas
  | space id => exact (h.keys.spaces.isSome_iff id).mpr hhas

theorem root_dir (hhas : drives.db.Has tree) : v.1.node (tree.root drive.config) = some .dir := by
  obtain ⟨key, hkey⟩ := h.unlocked hhas
  exact (h.stores tree hhas key hkey).root_dir

variable (hdata : ∀ name ∈ drive.config.dataDir, Ordinary name)

include hdata

omit h in
theorem ordinary_root (hid : Ordinary tree.id) : ∀ name ∈ tree.root drive.config, Ordinary name := by
  obtain ⟨area, harea, hroot⟩ := root_eq drive.config tree
  rw [hroot]
  intro name hname
  rcases List.mem_append.mp hname with hfront | hlast
  · rcases List.mem_append.mp hfront with hdir | hsingle
    · exact hdata name hdir
    · rw [List.mem_singleton.mp hsingle]
      exact ordinary_area harea
  · rw [List.mem_singleton.mp hlast]
    exact hid

theorem vacancy {id area : String} (hid : Ordinary id) (hfresh : id ∉ used)
    (harea : area = "libraries" ∨ area = "spaces") : v.1.Vacant (drive.config.dataDir ++ [area]) id where
  ordinary := hid
  resolved := by
    apply resolved_of_node _ (h.areas area harea) (by simp)
    intro name hname
    rcases List.mem_append.mp hname with hdir | hsingle
    · exact hdata name hdir
    · rw [List.mem_singleton.mp hsingle]
      exact ordinary_area harea
  dir := h.areas area harea
  missing := by
    obtain rfl | rfl := harea
    · rw [List.append_assoc]
      exact h.vacant (.library id) fun hhas => hfresh (h.named _ hhas).1
    · rw [List.append_assoc]
      exact h.vacant (.space id) fun hhas => hfresh (h.named _ hhas).1

theorem housed : Housed drive.config v := by
  intro id hhas
  rw [h.has_iff] at hhas
  have hdir : v.1.node (FsService.spaceRoot drive.config id) = some .dir := h.root_dir hhas
  have hord : ∀ name ∈ UserTree.root drive.config (.space id), Ordinary name :=
    ordinary_root hdata (h.named _ hhas).2
  exact ⟨resolved_of_node hord hdir (by simp), hdir⟩

end Stored

theorem ended_of_map {α β : Type} {result : Except AppError α} {outcome : Except AppError β}
    (h : (result.map fun _ => ()) = outcome.map fun _ => ()) : ended result = ended outcome := by
  cases result with
  | ok value =>
      cases outcome with
      | ok other => rfl
      | error error => cases h
  | error error =>
      cases outcome with
      | ok other => cases h
      | error other =>
          cases h
          rfl

section Operated

variable {db' : Db} {id : String} (h : Stored drive used v drives) (hrows : v'.2.db = db')
  (hkeys : KeysMirrored drive.primitives drive.masterKey v'.2)

include h hrows hkeys

/-- After an operation that opens no tree and closes none. -/
theorem stored_of_kept (hkept : TreesKept v v') : Stored drive (used ++ [id]) v' (drives.carry db') := by
  have hhas : ∀ tree, db'.Has tree ↔ drives.db.Has tree := fun tree => by
    rw [← hrows, hkept.has, h.has_iff]
  refine ⟨hrows, hkeys, ?_, ?_, fun tree htree => ?_, fun tree htree => ?_, fun tree htree key hkey => ?_,
    fun tree => Drives.carry_of_gone⟩
  · rw [hkept.files]
    exact h.linkFree
  · rw [hkept.files]
    exact h.areas
  · obtain ⟨hmem, hord⟩ := h.named tree ((hhas tree).mp htree)
    exact ⟨List.mem_append_left _ hmem, hord⟩
  · rw [hkept.files]
    exact h.vacant tree fun hold => htree ((hhas tree).mpr hold)
  · have hold := (hhas tree).mp htree
    rw [hkept.keys] at hkey
    rw [hkept.files, Drives.carry_of_kept hold htree]
    exact h.stores tree hold key hkey

/-- After an operation that opens a tree under a fresh identifier: the new vault is empty. -/
theorem stored_of_opened (hdata : ∀ name ∈ drive.config.dataDir, Ordinary name) (hid : Ordinary id)
    (hfresh : id ∉ used) (hopened : TreeOpened drive.config id v v' tree) :
    Stored drive (used ++ [id]) v' (drives.carry db') := by
  obtain ⟨area, harea, hroot⟩ := root_eq drive.config tree
  rw [hopened.id] at hroot
  have hvacant := h.vacancy hdata hid hfresh harea
  obtain ⟨content, hfiles⟩ := hopened.files
  have hhas : ∀ other, db'.Has other ↔ other = tree ∨ drives.db.Has other := fun other => by
    rw [← hrows, hopened.has, h.has_iff]
  have hnew : ¬ drives.db.Has tree := fun hmem => hopened.fresh ((h.has_iff tree).mpr hmem)
  refine ⟨hrows, hkeys, ?_, fun area' harea' => ?_, fun other hother => ?_, fun other hother => ?_,
    fun other hother key hkey => ?_, fun other => Drives.carry_of_gone⟩
  · rw [hfiles]
    exact linkFree_furnish h.linkFree _ _
  · rw [hfiles, node_furnish_of_not_below (root_not_above _ _)]
    exact h.areas area' harea'
  · rcases (hhas other).mp hother with rfl | hold
    · rw [hopened.id]
      exact ⟨by simp, hid⟩
    · obtain ⟨hmem, hord⟩ := h.named other hold
      exact ⟨List.mem_append_left _ hmem, hord⟩
  · have hne : tree ≠ other := fun heq => hother ((hhas other).mpr (Or.inl heq.symm))
    rw [hfiles, node_furnish_of_not_below (root_apart hne)]
    exact h.vacant other fun hold => hother ((hhas other).mpr (Or.inr hold))
  · by_cases heq : other = tree
    · rw [heq, Drives.carry_of_new hnew, hfiles, hroot]
      exact stores_furnish hvacant content
    · have hold := ((hhas other).mp hother).resolve_left heq
      rw [hopened.keys other heq] at hkey
      rw [Drives.carry_of_kept hold hother, hfiles]
      apply (h.stores other hold key hkey).congr
      exact fun names => node_furnish_of_not_below (roots_apart (Ne.symm heq) names) content

/-- After an operation that closes a tree: its vault is gone, and nothing is left below its root. -/
theorem stored_of_closed (hclosed : TreeClosed drive.config v v' tree) :
    Stored drive (used ++ [id]) v' (drives.carry db') := by
  have hhas : ∀ other, db'.Has other ↔ other ≠ tree ∧ drives.db.Has other := fun other => by
    rw [← hrows, hclosed.has, h.has_iff]
  refine ⟨hrows, hkeys, ?_, fun area harea => ?_, fun other hother => ?_, fun other hother => ?_,
    fun other hother key hkey => ?_, fun other => Drives.carry_of_gone⟩
  · rw [hclosed.files]
    exact h.linkFree.removeAll _
  · rw [hclosed.files, node_removeAll_of_not_below (root_not_above _ _)]
    exact h.areas area harea
  · obtain ⟨hmem, hord⟩ := h.named other ((hhas other).mp hother).2
    exact ⟨List.mem_append_left _ hmem, hord⟩
  · rw [hclosed.files]
    by_cases hgone : other = tree
    · have hroot : tree.root drive.config ≠ [] := by
        cases tree <;> simp [UserTree.root, FsService.libraryRoot, FsService.spaceRoot]
      rw [hgone]
      exact node_removeAll_of_below hroot List.prefix_rfl
    · rw [node_removeAll_of_not_below (root_apart (Ne.symm hgone))]
      exact h.vacant other fun hold => hother ((hhas other).mpr ⟨hgone, hold⟩)
  · obtain ⟨hne, hold⟩ := (hhas other).mp hother
    rw [hclosed.keys other hne] at hkey
    rw [Drives.carry_of_kept hold hother, hclosed.files]
    apply (h.stores other hold key hkey).congr
    exact fun names => node_removeAll_of_not_below (roots_apart (Ne.symm hne) names)

end Operated

/-- An operation whose identifier is fresh comes to what the registry says. -/
theorem operate_refines (hP : drive.primitives.Lawful) (hdata : ∀ name ∈ drive.config.dataDir, Ordinary name)
    {request : Request} (hid : Ordinary request.drawn.id) (hfresh : request.drawn.id ∉ used)
    (h : Stored drive used v drives) :
    (request.program drive.toBackend).Ensures (Serves Choice.Quiet Calm) v fun result v' =>
      ended result = (drives.serve drive (.operate request)).1 ∧
        Stored drive (used ++ [request.drawn.id]) v' (drives.serve drive (.operate request)).2 := by
  have hspaces := h.vacancy hdata hid hfresh (Or.inr rfl)
  have hlibraries := h.vacancy hdata hid hfresh (Or.inl rfl)
  have hhoused := h.housed hdata
  have hmoves := (request_effect Choice.Quiet Calm drive.toBackend request v).and
    (request_tree drive.toBackend request hspaces hlibraries hhoused)
  have hsettles := Registry.request_settles drive.toBackend request hspaces hlibraries hhoused
  rw [h.rows] at hsettles
  refine Program.Ensures.mono (hsettles.and hmoves) fun result v' hall => ?_
  obtain ⟨⟨hresult, hrows⟩, heffect, hmoved⟩ := hall
  rw [h.rows] at hrows
  have hkeys := heffect.mirrored hP h.keys
  refine ⟨ended_of_map hresult, ?_⟩
  cases hmoved with
  | kept hkept => exact stored_of_kept h hrows hkeys hkept
  | opened tree hopened => exact stored_of_opened h hrows hkeys hdata hid hfresh hopened
  | closed tree hclosed => exact stored_of_closed h hrows hkeys hclosed

/-- A call that leaves the disk and the keys in memory alone. -/
def OnRows : serviceSignature.Op → Prop
  | .inr (.select _) | .inr (.execute _) => True
  | _ => False

theorem query_onRows {α : Type} (q : Db → α) : (query q).Only OnRows fun _ => True :=
  ⟨trivial, fun _ => Program.only_ofExcept _⟩

theorem deleteRows_onRows (p : SessionRow → Bool) : (SessionRow.delete p).Only OnRows fun _ => True :=
  ⟨trivial, fun _ => Program.only_ofExcept _⟩

theorem login_onRows (crates : AuthCrates) (config : AppConfig) (drawn : Drawn) (now : Int)
    (token username password : String) :
    (AuthService.login crates config P drawn now token username password).Only OnRows fun _ => True := by
  refine (Program.only_ofExcept _).bind fun name _ => ?_
  refine (query_onRows _).bind fun found _ => (Program.only_okOr _ found).bind fun account _ => ?_
  refine (Program.only_ofExcept _).bind fun isValid _ => ?_
  dsimp only
  split
  · trivial
  refine (query_onRows _).bind fun user _ => (Program.only_okOr _ user).bind fun user _ => ?_
  split
  · trivial
  refine Program.Only.bind (R := fun _ => True) ⟨trivial, fun answer => ?_⟩ fun _ _ => trivial
  cases answer <;> trivial

theorem sessionOp_onRows (crates : AuthCrates) (now : Int) (op : SessionOp) :
    (op.program crates P now).Only OnRows fun _ => True := by
  cases op with
  | login config drawn token username password => exact (login_onRows ..).bind fun _ _ => trivial
  | logout userId token =>
      refine Program.Only.bind (R := fun _ => True) ?_ fun _ _ => trivial
      refine Program.Only.bind (R := fun _ => True) ?_ fun _ _ => trivial
      exact (deleteRows_onRows _).bind fun _ _ => trivial
  | validate token =>
      refine Program.Only.bind (R := fun _ => True) ?_ fun _ _ => trivial
      refine (query_onRows _).bind fun found _ => ?_
      cases found with
      | none => trivial
      | some session =>
          dsimp only
          split
          · exact (deleteRows_onRows _).outcome.bind fun _ _ => trivial
          · trivial
  | deleteExpired => exact (deleteRows_onRows _).bind fun _ _ => trivial

/-- Programs on the rows leave the disk and the keys in memory alone. -/
theorem onRows_ensures {F : Choice → Prop} {G : Option String → Prop} {α : Type} {program : ServiceProgram α}
    (h : program.Only OnRows fun _ => True) :
    program.Ensures (Serves F G) v fun _ v' => v'.1 = v.1 ∧ v'.2.unlockState = v.2.unlockState := by
  have hstep : ∀ (op : serviceSignature.Op) (w : FileTree × Records) (answer : serviceSignature.Answer op)
      (w' : FileTree × Records), OnRows op → (w.1 = v.1 ∧ w.2.unlockState = v.2.unlockState) →
        Serves F G op w answer w' → (w'.1 = v.1 ∧ w'.2.unlockState = v.2.unlockState) := by
    intro op w answer w' hop hw hserves
    cases op with
    | inl op => cases hop
    | inr op =>
        obtain ⟨⟨fault, -, hperform⟩, htree⟩ := hserves
        have hrecords : (op.perform fault w.2).2 = w'.2 := congrArg Prod.snd hperform
        refine ⟨htree.trans hw.1, ?_⟩
        rw [← hrecords, ← hw.2]
        cases op with
        | select q => rfl
        | execute statement => cases fault <;> rfl
        | keys change => cases hop
  exact h.ensures hstep ⟨rfl, rfl⟩

theorem SessionEffect.frame {crates : AuthCrates} {event : SessionEvent} {db db' : Db}
    (h : SessionEffect crates P event db db') : db'.toTables = { db.toTables with sessions := db'.sessions } := by
  cases h with
  | kept => rfl
  | loggedIn _ _ _ hinsert =>
      obtain ⟨_, htables, -⟩ := Db.insertSession_ok hinsert
      rw [htables]
  | loggedOut _ _ hdelete => rw [Db.deleteSessions_ok hdelete]
  | lapsed _ _ _ hdelete => rw [Db.deleteSessions_ok hdelete]

theorem has_of_sessions {db db' : Db} (htables : db'.toTables = { db.toTables with sessions := db'.sessions })
    (tree : UserTree) : db'.Has tree ↔ db.Has tree := by
  have hlibraries : db'.libraries = db.libraries := by rw [htables]
  have hspaces : db'.spaces = db.spaces := by rw [htables]
  cases tree with
  | library id => simp only [Db.Has, hlibraries]
  | space id => simp only [Db.Has, hspaces]

/-- After a change of sessions on the same disk, with the same keys. -/
theorem stored_of_sessions (h : Stored drive used v drives) (hfiles : v'.1 = v.1)
    (hkeys : v'.2.unlockState = v.2.unlockState)
    (htables : v'.2.db.toTables = { v.2.db.toTables with sessions := v'.2.db.sessions }) :
    Stored drive used v' ⟨v'.2.db, drives.vaults⟩ := by
  have hlibraries : v'.2.db.libraries = v.2.db.libraries := by rw [htables]
  have hspaces : v'.2.db.spaces = v.2.db.spaces := by rw [htables]
  have hhas : ∀ tree, v'.2.db.Has tree ↔ drives.db.Has tree := fun tree =>
    (has_of_sessions htables tree).trans (h.has_iff tree)
  have hmirrored : KeysMirrored drive.primitives drive.masterKey v'.2 := by
    have hsame := h.keys.of_same hlibraries hspaces
    rwa [← hkeys] at hsame
  refine ⟨rfl, hmirrored, ?_, ?_, fun tree htree => h.named tree ((hhas tree).mp htree), fun tree htree => ?_,
    fun tree htree key hkey => ?_, fun tree htree => h.gone tree fun hold => htree ((hhas tree).mpr hold)⟩
  · rw [hfiles]
    exact h.linkFree
  · rw [hfiles]
    exact h.areas
  · rw [hfiles]
    exact h.vacant tree fun hold => htree ((hhas tree).mpr hold)
  · rw [hkeys] at hkey
    rw [hfiles]
    exact h.stores tree ((hhas tree).mp htree) key hkey

theorem attend_refines {now : Int} {op : SessionOp} (h : Stored drive used v drives) :
    (op.program drive.crates drive.primitives now).Ensures (Serves Choice.Quiet Calm) v fun result v' =>
      ended result = (drives.serve drive (.attend now op)).1 ∧
        Stored drive used v' (drives.serve drive (.attend now op)).2 := by
  have hrows := onRows_ensures (F := Choice.Quiet) (G := Calm) (v := v)
    (sessionOp_onRows (P := drive.primitives) drive.crates now op)
  have hsettles : Registry.Settles (op.program drive.crates drive.primitives now) v
      (Registry.attend drive.crates drive.primitives now op v.2.db) := Registry.settles_attend op
  rw [h.rows] at hsettles
  refine Program.Ensures.mono (hsettles.and ((sessionOp_effect op).and hrows)) fun result v' hall => ?_
  obtain ⟨⟨hresult, hdb⟩, heffect, hfiles, hkeys⟩ := hall
  rw [h.rows] at hdb
  refine ⟨ended_of_map hresult, ?_⟩
  have hstored := stored_of_sessions h hfiles hkeys heffect.frame
  rw [hdb] at hstored
  exact hstored

/-- What the guards have found when they open a tree. -/
theorem openTree_cases {db : Db} {crates : AuthCrates} {call : FileCall} (h : db.openTree crates P call = .ok tree) :
    ∃ user, db.setupUser crates P call.now (.bearer call.authorization) = .ok user ∧
      ((call.area = .library ∧ ∃ lib, db.findLibraryByUser user.id = some lib ∧ tree = .library lib.id) ∨
        ∃ segment found, call.area = .space segment ∧ db.findForUser user.id segment = some found ∧
          call.request.requiredLevel ≤ SpaceGuard.permissionLevel found.userPermission ∧
          tree = .space found.space.id) := by
  unfold Db.openTree at h
  cases huser : db.setupUser crates P call.now (.bearer call.authorization) with
  | error rejection =>
      rw [huser] at h
      cases h
  | ok user =>
      rw [huser] at h
      dsimp only at h
      refine ⟨user, rfl, ?_⟩
      cases harea : call.area with
      | library =>
          rw [harea] at h
          dsimp only at h
          cases hlib : db.findLibraryByUser user.id with
          | none =>
              rw [hlib] at h
              cases h
          | some lib =>
              rw [hlib] at h
              cases h
              exact Or.inl ⟨rfl, lib, rfl, rfl⟩
      | space segment =>
          rw [harea] at h
          dsimp only at h
          split_ifs at h with hempty
          cases hfound : db.findForUser user.id segment with
          | none =>
              rw [hfound] at h
              cases h
          | some found =>
              rw [hfound] at h
              dsimp only at h
              split_ifs at h with hlevel
              cases h
              exact Or.inr ⟨segment, found, rfl, hfound, not_lt.mp hlevel, rfl⟩

/-- A space that is found has its row, under the identifier that was looked for. -/
theorem space_of_findForUser {db : Db} {userId spaceId : String} {found : SpaceWithMeta}
    (h : db.findForUser userId spaceId = some found) : found.space ∈ db.spaces.rows ∧ found.space.id = spaceId := by
  obtain ⟨space, hspace, rfl⟩ := List.mem_map.mp (List.mem_of_head? h)
  obtain ⟨hrow, hfilter⟩ := List.mem_filter.mp hspace
  simp only [Bool.and_eq_true, decide_eq_true_eq] at hfilter
  exact ⟨hrow, hfilter.1⟩

theorem has_of_openTree {db : Db} {crates : AuthCrates} {call : FileCall}
    (h : db.openTree crates P call = .ok tree) : db.Has tree := by
  obtain ⟨user, -, ⟨-, lib, hlib, rfl⟩ | ⟨segment, found, -, hfound, -, rfl⟩⟩ := openTree_cases h
  · exact List.mem_map_of_mem (List.mem_of_find?_eq_some hlib)
  · exact List.mem_map_of_mem (space_of_findForUser hfound).1

/-- An upload that is not too large for its route is not too large for the cipher. -/
theorem short_of_allowed {config : AppConfig} {request : FileRequest} (h : request.oversized config = false) :
    ∀ nonce userPath data writeVerify, request = .uploadFile nonce userPath data writeVerify →
      data.length ≤ maxPlaintextLen := by
  intro nonce userPath data writeVerify hrequest
  rw [hrequest, FileRequest.oversized, decide_eq_false_iff_not, FileRequest.allowedBytes] at h
  have hcap : min config.maxUploadBytes (50 * 1024 * 1024) ≤ maxPlaintextLen := (min_le_right _ _).trans (by decide)
  omega

/-- A request on an open tree is answered by its vault. -/
theorem serveFiles_refines {oracle : Nat → Choice} (hP : drive.primitives.Lawful)
    (hdata : ∀ name ∈ drive.config.dataDir, Ordinary name) (hquiet : QuietOracle oracle) {site : Site}
    (h : Stored drive used site.view drives) (hhas : drives.db.Has tree) {request : FileRequest}
    (hsize : request.oversized drive.config = false) :
    let settled := (drives.vaults tree).answer readPath isListed True request.plain
    (serveFiles drive oracle tree request site).1 = shown settled.1 ∧
      (serveFiles drive oracle tree request site).2.records = site.records ∧
      Stored drive used (serveFiles drive oracle tree request site).2.view
        ⟨drives.db, Function.update drives.vaults tree settled.2⟩ := by
  intro settled
  obtain ⟨key, hkey⟩ := h.unlocked hhas
  have hlocked : (tree.key site.records.unlockState ≠ none) = True := eq_true (by
    intro hnone
    rw [show tree.key site.records.unlockState = some key from hkey] at hnone
    cases hnone)
  have hall : StoresAll drive.primitives drive.config (fun _ => key) (· = tree) site.1.tree drives.vaults :=
    ⟨h.linkFree, fun other hother => by rw [hother]; exact h.stores tree hhas key hkey⟩
  have hord : ∀ other, other = tree → ∀ name ∈ other.root drive.config, Ordinary name := by
    intro other hother
    rw [hother]
    exact Stored.ordinary_root hdata (h.named tree hhas).2
  have hfits : (TreeRequest.mk tree site.records.unlockState request).Fits (fun _ => key) (· = tree) :=
    ⟨rfl, fun found hfound => Option.some.inj (hfound.symm.trans hkey), short_of_allowed hsize⟩
  have hsettles := TreeRequest.settles drive.mimeFromFilename drive.facts hP hord hfits hall
  rw [hlocked] at hsettles
  obtain ⟨hreply, hleaves⟩ := run_of_entry_ensures hquiet hsettles
  rw [serveFiles, if_neg (by rw [hsize]; simp)]
  refine ⟨seen_eq_shown hreply, rfl, h.rows, h.keys, hleaves.linkFree, fun area harea => ?_, h.named,
    fun other hother => ?_, fun other hother found hfound => ?_, fun other hother => ?_⟩
  · exact (hleaves.outside _ (root_not_above _ _)).trans (h.areas area harea)
  · have hne : tree ≠ other := fun heq => hother (heq ▸ hhas)
    exact (hleaves.outside _ (root_apart hne)).trans (h.vacant other hother)
  · by_cases heq : other = tree
    · subst heq
      simp only [Function.update_self]
      obtain rfl : found = key := Option.some.inj (hfound.symm.trans hkey)
      exact hleaves.stores
    · simp only [Function.update_of_ne heq]
      apply (h.stores other hother found hfound).congr
      exact fun names => hleaves.outside _ (roots_apart (Ne.symm heq) names)
  · have hne : other ≠ tree := fun heq => hother (by rw [heq]; exact hhas)
    simp only [Function.update_of_ne hne]
    exact h.gone other hother

theorem files_refines {oracle : Nat → Choice} {dbOracle : Nat → Option String} (hP : drive.primitives.Lawful)
    (hdata : ∀ name ∈ drive.config.dataDir, Ordinary name) (hquiet : QuietOracle oracle)
    (hcalm : ∀ tick, Calm (dbOracle tick)) {site : Site} (h : Stored drive used site.view drives) (call : FileCall) :
    (call.serve drive oracle dbOracle site).1 = (drives.serve drive (.files call)).1 ∧
      Stored drive used (call.serve drive oracle dbOracle site).2.view (drives.serve drive (.files call)).2 := by
  have hguards : (call.openTree drive.crates drive.primitives).Stops (Serves Choice.Quiet Calm) site.view _ _ :=
    openTree_calm
  obtain ⟨hopened, hview⟩ := service_run hquiet hcalm hguards
  have hrows : site.view.2.db = drives.db := h.rows
  rw [hrows] at hopened hview
  have hfewer := FewerSessions.afterGuard drives.db drive.crates drive.primitives call.now (.bearer call.authorization)
  unfold FileCall.serve Drives.serve Drives.reply
  generalize (call.openTree drive.crates drive.primitives).run (serviceHandler oracle dbOracle) site = opened at *
  obtain ⟨result, site'⟩ := opened
  obtain rfl : result = .ok (drives.db.openTree drive.crates drive.primitives call) := hopened
  have hdb : site'.view.2.db =
      drives.db.afterGuard drive.crates drive.primitives call.now (.bearer call.authorization) := by rw [hview]
  have hstored : Stored drive used site'.view ⟨site'.view.2.db, drives.vaults⟩ :=
    stored_of_sessions h (by rw [hview]) (by rw [hview]) (by rw [hdb, hrows]; exact hfewer.tables)
  rw [hdb] at hstored
  dsimp only
  cases htree : drives.db.openTree drive.crates drive.primitives call with
  | error status => exact ⟨rfl, hstored⟩
  | ok tree =>
      have hhas : (drives.db.afterGuard drive.crates drive.primitives call.now
          (.bearer call.authorization)).Has tree := by
        rw [has_of_sessions hfewer.tables]
        exact has_of_openTree htree
      dsimp only
      by_cases hsize : call.request.oversized drive.config = true
      · rw [serveFiles, if_pos hsize, if_pos hsize]
        exact ⟨rfl, hstored⟩
      · obtain ⟨hreply, -, hnext⟩ := serveFiles_refines hP hdata hquiet hstored hhas (Bool.eq_false_iff.mpr hsize)
        rw [if_neg hsize]
        exact ⟨hreply, hnext⟩

/-! ### Runs -/

/-- The identifiers that a call draws for a new tree. -/
def DriveCall.drawn : DriveCall → List String
  | operate request => [request.drawn.id]
  | _ => []

def drawnIn (events : List DriveEvent) : List String := events.flatMap fun event => event.call.drawn

/-- Identifiers are drawn once, and each is a file name. -/
structure DrawnFresh (events : List DriveEvent) : Prop where
  nodup : (drawnIn events).Nodup
  ordinary : ∀ id ∈ drawnIn events, Ordinary id

/-- A disk before the first start: the two directories for trees are there, without any tree, and there are no
links. -/
structure FirstBoot (config : AppConfig) (t : FileTree) : Prop where
  linkFree : t.LinkFree
  areas : ∀ area, area = "libraries" ∨ area = "spaces" → t.node (config.dataDir ++ [area]) = some .dir
  vacant : ∀ tree : UserTree, t.node (tree.root config) = none

theorem stored_first {disk : Disk} (hboot : FirstBoot drive.config disk.tree) :
    Stored drive [] (firstSite disk).view Drives.first where
  rows := rfl
  keys := mirrored_firstSite disk
  linkFree := hboot.linkFree
  areas := hboot.areas
  named tree htree := by cases tree <;> cases htree
  vacant tree _ := hboot.vacant tree
  stores tree htree := by cases tree <;> cases htree
  gone _ _ := rfl

/-- A call is answered as by the drives, and the server goes on to store what they become. -/
theorem call_refines {oracle : Nat → Choice} {dbOracle : Nat → Option String} (hP : drive.primitives.Lawful)
    (hdata : ∀ name ∈ drive.config.dataDir, Ordinary name) (hquiet : QuietOracle oracle)
    (hcalm : ∀ tick, Calm (dbOracle tick)) {site : Site} (h : Stored drive used site.view drives) (call : DriveCall)
    (hfresh : ∀ id ∈ call.drawn, id ∉ used ∧ Ordinary id) :
    (call.serve drive oracle dbOracle site).1 = (drives.serve drive call).1 ∧
      Stored drive (used ++ call.drawn) (call.serve drive oracle dbOracle site).2.view (drives.serve drive call).2 := by
  cases call with
  | operate request =>
      obtain ⟨hnew, hord⟩ := hfresh request.drawn.id (List.mem_singleton_self _)
      exact service_run hquiet hcalm (operate_refines hP hdata hord hnew h)
  | attend now op =>
      rw [show (DriveCall.attend now op).drawn = [] from rfl, List.append_nil]
      exact service_run hquiet hcalm (attend_refines h)
  | files call =>
      rw [show (DriveCall.files call).drawn = [] from rfl, List.append_nil]
      exact files_refines hP hdata hquiet hcalm h call
  | restart =>
      obtain ⟨hresult, hview⟩ := service_run hquiet hcalm (restart_ensures h.keys)
      rw [show DriveCall.restart.drawn = [] from rfl, List.append_nil]
      refine ⟨congrArg ended hresult, ?_⟩
      rw [DriveCall.serve, hview]
      exact h

/-- Each step of the server is one of the drives. -/
theorem step_refines (hP : drive.primitives.Lawful) (hdata : ∀ name ∈ drive.config.dataDir, Ordinary name)
    {site site' : Site} {event : DriveEvent} (hstep : DriveStep drive site event site')
    (h : Stored drive used site.view drives) (hfresh : ∀ id ∈ event.call.drawn, id ∉ used ∧ Ordinary id) :
    ∃ drives', Drives.Step drive drives event drives' ∧
      Stored drive (used ++ event.call.drawn) site'.view drives' := by
  obtain ⟨oracle, dbOracle, hquiet, hcalm, hserve⟩ := hstep
  obtain ⟨hanswer, hnext⟩ := call_refines hP hdata hquiet hcalm h event.call hfresh
  rw [← hserve] at hanswer hnext
  exact ⟨_, Prod.ext hanswer rfl, hnext⟩

/-- The caller has a current session, the account is active and set up, and the tree is the one that the route leads to:
the caller's library, or the space under the segment, where the caller has the level that the request needs. -/
def Db.MayOpen (db : Db) (crates : AuthCrates) (P : Primitives) (call : FileCall) (tree : UserTree) : Prop :=
  ∃ token session user, AuthGuard.extractBearerToken call.authorization = some token ∧
    SessionRow.current crates call.now (AuthService.hashToken P token) db = some session ∧
    db.findUserById session.userId = some user ∧ user.isActive = true ∧ user.setupComplete = true ∧
    match call.area with
    | .library => ∃ lib ∈ db.libraries.rows, lib.userId = user.id ∧ tree = .library lib.id
    | .space segment => tree = .space segment ∧ call.request.requiredLevel ≤ effectiveLevel db user.id segment

theorem mayOpen_of_openTree {db : Db} {crates : AuthCrates} {call : FileCall}
    (h : db.openTree crates P call = .ok tree) : db.MayOpen crates P call tree := by
  obtain ⟨user, huser, htree⟩ := openTree_cases h
  obtain ⟨token, session, htoken, hcurrent, hfound, hactive, hsetup⟩ := setupUser_eq_ok huser
  refine ⟨token, session, user, htoken, hcurrent, hfound, hactive, hsetup, ?_⟩
  obtain ⟨harea, lib, hlib, rfl⟩ | ⟨segment, found, harea, hspace, hlevel, rfl⟩ := htree
  · rw [harea]
    exact ⟨lib, List.mem_of_find?_eq_some hlib, by simpa using List.find?_some hlib, rfl⟩
  · rw [harea, (space_of_findForUser hspace).2]
    refine ⟨rfl, ?_⟩
    rw [← SpaceGuard.permissionLevel_findForUser hspace]
    exact hlevel

/-- An upload of the data that succeeded, whose route led to the tree. -/
def DriveEvent.Uploads (drive : DriveBackend) (db : Db) (tree : UserTree) (data : Bytes) (event : DriveEvent) : Prop :=
  ∃ call nonce userPath writeVerify, event.call = .files call ∧ event.answer = .ok .done ∧
    call.request = .uploadFile nonce userPath data writeVerify ∧
    db.openTree drive.crates drive.primitives call = .ok tree ∧ db.MayOpen drive.crates drive.primitives call tree

/-- Somewhere in the run the data was uploaded to the tree, as the rows then allowed. -/
def Uploaded (drive : DriveBackend) (start : Site) (events : List DriveEvent) (tree : UserTree) (data : Bytes) : Prop :=
  ∃ before event after site, events = before ++ event :: after ∧ Run (DriveStep drive) start before site ∧
    event.Uploads drive site.db tree data

theorem Uploaded.snoc {start : Site} {events : List DriveEvent} {data : Bytes}
    (h : Uploaded drive start events tree data) (event : DriveEvent) :
    Uploaded drive start (events ++ [event]) tree data := by
  obtain ⟨before, earlier, after, site, rfl, hrun, hupload⟩ := h
  exact ⟨before, earlier, after ++ [event], site, by simp, hrun, hupload⟩

/-- Whatever a vault holds was uploaded to its tree. -/
def Drives.FromUploads (drive : DriveBackend) (start : Site) (events : List DriveEvent) (drives : Drives) : Prop :=
  ∀ tree path data, (drives.vaults tree).item path = some (.value data) → Uploaded drive start events tree data

theorem shown_done {reply : Reply String Bytes} (h : reply = .done) : shown reply = .ok .done := by rw [h]; rfl

/-- A value that is seen was answered. -/
theorem value_of_shown {reply : Reply String Bytes} {data : Bytes} (h : shown reply = .ok (.value data)) :
    reply = .value data := by
  cases reply with
  | value content =>
      cases h
      rfl
  | _ => cases h

/-- Only an upload puts a value. -/
theorem uploadFile_of_plain {request : FileRequest} {address : String} {data : Bytes}
    (h : request.plain = .put address data) :
    ∃ nonce writeVerify, request = .uploadFile nonce address data writeVerify := by
  cases request with
  | uploadFile nonce userPath content writeVerify =>
      cases h
      exact ⟨nonce, writeVerify, rfl⟩
  | _ => cases h

/-- The new values of a step were uploaded by it. -/
theorem Drives.Step.fromUploads {start site : Site} {events : List DriveEvent} {event : DriveEvent}
    {drives' : Drives} (hstep : Drives.Step drive drives event drives') (hrun : Run (DriveStep drive) start events site)
    (hrows : site.db = drives.db) (h : drives.FromUploads drive start events) :
    drives'.FromUploads drive start (events ++ [event]) := by
  have hold : ∀ {tree path data}, (drives.vaults tree).item path = some (.value data) →
      Uploaded drive start (events ++ [event]) tree data := fun hitem => (h _ _ _ hitem).snoc event
  obtain ⟨call, answer⟩ := event
  obtain rfl : answer = (drives.serve drive call).1 := congrArg Prod.fst hstep
  obtain rfl : drives' = (drives.serve drive call).2 := congrArg Prod.snd hstep
  intro tree path data hitem
  cases call with
  | operate request =>
      have hcarried : ((drives.carry (Registry.after drives.db
          (Registry.settle drive.toBackend request drives.db))).vaults tree).item path = some (.value data) := hitem
      generalize Registry.after drives.db (Registry.settle drive.toBackend request drives.db) = db' at hcarried
      by_cases hboth : drives.db.Has tree ∧ db'.Has tree
      · rw [Drives.carry_of_kept hboth.1 hboth.2] at hcarried
        exact hold hcarried
      · have hempty : (drives.carry db').vaults tree = .empty := if_neg hboth
        rw [hempty] at hcarried
        have hnone : (if path = [] then some Item.folder else none) = some (Item.value data) := hcarried
        split_ifs at hnone
        cases hnone
  | attend now op => exact hold hitem
  | restart => exact hold hitem
  | files call =>
      simp only [Drives.serve] at hitem
      unfold Drives.reply at hitem
      cases hopen : drives.db.openTree drive.crates drive.primitives call with
      | error status =>
          rw [hopen] at hitem
          exact hold hitem
      | ok opened =>
          rw [hopen] at hitem
          dsimp only at hitem
          by_cases hsize : call.request.oversized drive.config = true
          · rw [if_pos hsize] at hitem
            exact hold hitem
          rw [if_neg hsize] at hitem
          by_cases heq : tree = opened
          · subst heq
            simp only [Function.update_self] at hitem
            rcases Vault.answer_origin hitem with ⟨old, hfound⟩ | ⟨address, hput, hdone⟩
            · exact hold hfound
            · obtain ⟨nonce, writeVerify, hrequest⟩ := uploadFile_of_plain hput
              refine ⟨events, _, [], site, rfl, hrun, call, nonce, address, writeVerify, rfl, ?_, hrequest, ?_⟩
              · simp only [Drives.serve, Drives.reply, hopen, if_neg hsize]
                exact shown_done hdone
              · rw [hrows]
                exact ⟨hopen, mayOpen_of_openTree hopen⟩
          · simp only [Function.update_of_ne heq] at hitem
            exact hold hitem

/-- Runs of the server are runs of the drives: a run from the first start, with what the vaults hold at its end. -/
theorem run_refines (hP : drive.primitives.Lawful) (hdata : ∀ name ∈ drive.config.dataDir, Ordinary name) {disk : Disk}
    (hboot : FirstBoot drive.config disk.tree) {events : List DriveEvent} {site : Site}
    (hrun : Run (DriveStep drive) (firstSite disk) events site) (hfresh : DrawnFresh events) :
    ∃ drives, Run (Drives.Step drive) Drives.first events drives ∧ Stored drive (drawnIn events) site.view drives ∧
      drives.FromUploads drive (firstSite disk) events := by
  induction hrun with
  | nil =>
      refine ⟨Drives.first, .nil, stored_first hboot, fun tree path data hitem => ?_⟩
      have hnone : (if path = [] then some Item.folder else none) = some (Item.value data) := hitem
      split_ifs at hnone
      cases hnone
  | @snoc events event site site' hrun hstep ih =>
      have hdrawn : drawnIn (events ++ [event]) = drawnIn events ++ event.call.drawn := by simp [drawnIn]
      obtain ⟨hnodup, hordinary⟩ := hfresh
      rw [hdrawn] at hnodup hordinary ⊢
      obtain ⟨hbefore, -, hapart⟩ := List.nodup_append.mp hnodup
      obtain ⟨drives, habstract, hstored, hfrom⟩ := ih
        ⟨hbefore, fun id hid => hordinary id (List.mem_append_left _ hid)⟩
      obtain ⟨drives', hnext, hstored'⟩ := step_refines hP hdata hstep hstored fun id hid =>
        ⟨fun hmem => hapart id hmem id hid rfl, hordinary id (List.mem_append_right _ hid)⟩
      exact ⟨drives', habstract.snoc hnext, hstored', hnext.fromUploads hrun hstored.rows hfrom⟩

def sampleDrive : DriveBackend := { sampleBackend with mimeFromFilename := fun _ => none, facts := plainFacts }

theorem firstBoot_startupTree : FirstBoot sampleConfig startupTree where
  linkFree := (linkFree_empty.put _ (by simp)).put _ (by simp)
  areas area harea := by obtain rfl | rfl := harea <;> decide +kernel
  vacant tree := by
    have hname : tree.root sampleConfig ≠ ["libraries"] ∧ tree.root sampleConfig ≠ ["spaces"] := by
      cases tree <;> simp [UserTree.root, FsService.libraryRoot, FsService.spaceRoot, sampleConfig]
    rw [startupTree, node_put_of_ne hname.2, node_put_of_ne hname.1]
    cases tree <;> rfl

/-- Serve a call without any failure. -/
def calmCall (site : Site) (call : DriveCall) : DriveEvent × Site :=
  let served := call.serve sampleDrive calmOracle (fun _ => none) site
  (⟨call, served.1⟩, served.2)

theorem step_calm (site : Site) (call : DriveCall) :
    DriveStep sampleDrive site (calmCall site call).1 (calmCall site call).2 :=
  ⟨calmOracle, fun _ => none, calmOracle_quiet, fun _ => rfl, rfl⟩

def calmCalls (site : Site) (calls : List DriveCall) : List DriveEvent × Site :=
  calls.foldl (fun sofar call => (sofar.1 ++ [(calmCall sofar.2 call).1], (calmCall sofar.2 call).2)) ([], site)

theorem run_calmCalls (site : Site) (calls : List DriveCall) :
    Run (DriveStep sampleDrive) site (calmCalls site calls).1 (calmCalls site calls).2 := by
  induction calls using List.reverseRecOn with
  | nil => exact .nil
  | append_singleton calls call ih =>
      rw [calmCalls, List.foldl_append]
      exact ih.snoc (step_calm _ call)

def aliceToken : String := "aaaaaaaaaaaaaaaaaaaaaaaaaaaaaaaa"

/-- Alice asks for something in her library. -/
def aliceFiles (request : FileRequest) : FileCall :=
  ⟨january 1 * nanos, some ("Bearer " ++ aliceToken), .library, request⟩

/-- Alice registers, sets up her library, logs in and uploads a file. -/
def aliceCalls : List DriveCall :=
  [.operate (sampleRequest "" "alice" (.register [] "alice" "alice@example.com" "password")),
    .operate (sampleRequest "alice" "library" .setupLibrary),
    .attend (january 1 * nanos) (aliceLogin "session" aliceToken),
    .files (aliceFiles (.uploadFile ⟨List.replicate 12 0, twelve_zeros⟩ "docs/a" [1, 2] true))]

def aliceRun : List DriveEvent × Site := calmCalls (firstSite ⟨startupTree, 0⟩) aliceCalls

theorem drawnFresh_aliceRun : DrawnFresh aliceRun.1 := by
  have hdrawn : drawnIn aliceRun.1 = ["alice", "library"] := rfl
  constructor
  · rw [hdrawn]
    decide
  · rw [hdrawn]
    simp [Ordinary]

/-- Every run of the server, from the first start and without failures of the disk or the database, is a run of the
drives with the same answers; and at its end each library and space stores on the disk what its vault has become. -/
theorem drive_refines_vaults (drive : DriveBackend) (hP : drive.primitives.Lawful)
    (hdata : ∀ name ∈ drive.config.dataDir, Ordinary name) (disk : Disk) (hboot : FirstBoot drive.config disk.tree)
    (events : List DriveEvent) (site : Site) (hrun : Run (DriveStep drive) (firstSite disk) events site)
    (hfresh : DrawnFresh events) :
    ∃ drives, Run (Drives.Step drive) Drives.first events drives ∧
      Stored drive (drawnIn events) site.view drives := by
  obtain ⟨drives, habstract, hstored, -⟩ := run_refines hP hdata hboot hrun hfresh
  exact ⟨drives, habstract, hstored⟩

theorem drive_refines_vaults_alice :
    ∃ drives, Run (Drives.Step sampleDrive) Drives.first aliceRun.1 drives ∧
      Stored sampleDrive (drawnIn aliceRun.1) aliceRun.2.view drives :=
  drive_refines_vaults sampleDrive plainPrimitives_lawful (by simp [sampleDrive, sampleBackend, sampleConfig])
    ⟨startupTree, 0⟩ firstBoot_startupTree aliceRun.1 aliceRun.2 (run_calmCalls _ _) drawnFresh_aliceRun

/-- What is downloaded was uploaded. In every run of the server, whoever is answered a download could read the tree that
the route led to, and the data was uploaded to this very tree before, by a caller whose route led to it and who could
write it then. -/
theorem download_from_upload (drive : DriveBackend) (hP : drive.primitives.Lawful)
    (hdata : ∀ name ∈ drive.config.dataDir, Ordinary name) (disk : Disk) (hboot : FirstBoot drive.config disk.tree)
    (events : List DriveEvent) (site site' : Site) (hrun : Run (DriveStep drive) (firstSite disk) events site)
    (hfresh : DrawnFresh events) (call : FileCall) (data : Bytes)
    (hdownload : DriveStep drive site ⟨.files call, .ok (.value data)⟩ site') :
    ∃ tree, site.db.openTree drive.crates drive.primitives call = .ok tree ∧
      site.db.MayOpen drive.crates drive.primitives call tree ∧
      Uploaded drive (firstSite disk) events tree data := by
  obtain ⟨drives, -, hstored, hfrom⟩ := run_refines hP hdata hboot hrun hfresh
  obtain ⟨oracle, dbOracle, hquiet, hcalm, hserve⟩ := hdownload
  obtain ⟨hreply, -⟩ := files_refines hP hdata hquiet hcalm hstored call
  have hanswer : (drives.reply drive call).1 = .ok (.value data) :=
    hreply.symm.trans (congrArg Prod.fst hserve).symm
  have hrows : site.db = drives.db := hstored.rows
  unfold Drives.reply at hanswer
  cases hopen : drives.db.openTree drive.crates drive.primitives call with
  | error status =>
      rw [hopen] at hanswer
      cases hanswer
  | ok tree =>
      rw [hopen] at hanswer
      dsimp only at hanswer
      split_ifs at hanswer
      obtain ⟨path, hitem⟩ := Vault.answer_value (value_of_shown hanswer)
      rw [hrows]
      exact ⟨tree, hopen, mayOpen_of_openTree hopen, hfrom tree path data hitem⟩

def isValue (data : Bytes) : Seen → Bool
  | .ok (.value content) => decide (content = data)
  | _ => false

theorem ok_value_of_isValue {answer : Seen} {data : Bytes} (h : isValue data answer = true) :
    answer = .ok (.value data) := by
  unfold isValue at h
  split at h
  · rw [of_decide_eq_true h]
  · cases h

theorem download_from_upload_alice :
    ∃ tree,
      aliceRun.2.db.openTree sampleDrive.crates sampleDrive.primitives (aliceFiles (.downloadFile "docs/a")) =
        .ok tree ∧
      aliceRun.2.db.MayOpen sampleDrive.crates sampleDrive.primitives (aliceFiles (.downloadFile "docs/a")) tree ∧
      Uploaded sampleDrive (firstSite ⟨startupTree, 0⟩) aliceRun.1 tree [1, 2] := by
  have hanswer : (calmCall aliceRun.2 (.files (aliceFiles (.downloadFile "docs/a")))).1.answer = .ok (.value [1, 2]) :=
    ok_value_of_isValue (by decide +kernel)
  have hstep := step_calm aliceRun.2 (.files (aliceFiles (.downloadFile "docs/a")))
  rw [show (calmCall aliceRun.2 (.files (aliceFiles (.downloadFile "docs/a")))).1 =
    ⟨.files (aliceFiles (.downloadFile "docs/a")), .ok (.value [1, 2])⟩ from
      congrArg (DriveEvent.mk _) hanswer] at hstep
  exact download_from_upload sampleDrive plainPrimitives_lawful (by simp [sampleDrive, sampleBackend, sampleConfig])
    ⟨startupTree, 0⟩ firstBoot_startupTree aliceRun.1 aliceRun.2 _ (run_calmCalls _ _) drawnFresh_aliceRun _ _ hstep

end IronDrive
