import IronDrive.FileRequests

/-! Each request, on a tree that stores a vault, answers what the vault answers and leaves a tree that stores what
the vault becomes; outside the tree of the request nothing changes. -/

namespace IronDrive

open Lib FileTree PathSafety FsService CryptoService

variable {P : Primitives} {key : DataKey} {t : FileTree} {root : Path} {w : Vault String Bytes} {userPath : String}
  {α : Type}

/-- What a request leaves: no links, the vault below its root, and everything else as it was. -/
structure LeavesVault (P : Primitives) (key : DataKey) (t : FileTree) (root : Path) (w : Vault String Bytes)
    (t' : FileTree) : Prop where
  linkFree : t'.LinkFree
  stores : Stores P key t' root w
  outside : ∀ p, ¬ root <+: p → t'.node p = t.node p

/-- The program gives the reply and leaves the vault. -/
def SettlesAs (P : Primitives) (key : DataKey) (t : FileTree) (root : Path)
    (program : EntryProgram (Reply String Bytes)) (settled : Reply String Bytes × Vault String Bytes) : Prop :=
  program.Ensures EntryQuietly t fun result t' => RepliesAs result settled.1 ∧ LeavesVault P key t root settled.2 t'

theorem leaves_self (hfree : t.LinkFree) (h : Stores P key t root w) : LeavesVault P key t root w t :=
  ⟨hfree, h, fun _ _ => rfl⟩

theorem settles_of_refuses {program : EntryProgram (Reply String Bytes)} {why : Refusal} (hfree : t.LinkFree)
    (h : Stores P key t root w) (hrefuses : Refuses program t (refusalStatus why)) :
    SettlesAs P key t root program (.refused why, w) := by
  obtain ⟨error, hstatus, hstops⟩ := hrefuses
  apply Program.Ensures.mono hstops
  intro result t' ⟨hresult, ht⟩
  rw [hresult, ht]
  exact ⟨.error hstatus, leaves_self hfree h⟩

theorem settles_of_stops {program : EntryProgram (Reply String Bytes)} {reply : Reply String Bytes} {t' : FileTree}
    {w' : Vault String Bytes} (hstops : program.Stops EntryQuietly t (.ok reply) t')
    (h : LeavesVault P key t root w' t') :
    SettlesAs P key t root program (reply, w') := by
  apply Program.Ensures.mono hstops
  intro result t'' ⟨hresult, ht⟩
  rw [hresult, ht]
  exact ⟨.ok, h⟩

theorem stops_reply {program : EntryProgram α} {value : α} {t' : FileTree} {reply : α → Reply String Bytes}
    (hstops : program.Stops EntryQuietly t (.ok value) t') :
    (program.bind fun value => Program.done (reply value)).Stops EntryQuietly t (.ok (reply value)) t' :=
  hstops.bind (Program.stops_done _ _)

theorem root_prefix_iff {names path : List String} : root ++ names <+: root ++ path ↔ names <+: path :=
  List.prefix_append_right_inj root

/-- A tree in which the directories of a path were made stores the vault in which it was filled. -/
theorem leaves_fill (hfree : t.LinkFree) (h : Stores P key t root w) {path : List String} {made : FileTree}
    (hframe : ∀ p, made.node p = if p <+: root ++ path then some .dir else t.node p) :
    LeavesVault P key t root (w.fill path) made where
  linkFree p absolute target hnode := by
    rw [hframe] at hnode
    split at hnode
    · cases hnode
    · exact hfree p absolute target hnode
  stores names hshown := by
    rw [hframe]
    show Seals P key (if names <+: path then some .folder else w.item names) _
    by_cases hnames : names <+: path
    · rw [if_pos hnames, if_pos (root_prefix_iff.mpr hnames)]
      exact .folder
    · rw [if_neg hnames, if_neg fun hpre => hnames (root_prefix_iff.mp hpre)]
      exact h names hshown
  outside p hp := by
    rw [hframe]
    by_cases hpre : p <+: root ++ path
    · rcases List.prefix_or_prefix_of_prefix hpre (List.prefix_append root path) with habove | hbelow
      · rw [if_pos hpre, node_above_dir habove h.root_dir]
      · exact absurd hbelow hp
    · rw [if_neg hpre]

/-- The parents of an accepted path are made. -/
theorem parents_made (hfree : t.LinkFree) {place : Path} (hroot : t.canonicalize root = .ok place)
    (haccepts : Accepts t place userPath) :
    ∃ made, t.createDirs [] (place ++ splitComponents userPath).dropLast = .ok made ∧
      ∀ p, made.node p = if p <+: (place ++ splitComponents userPath).dropLast then some .dir else t.node p := by
  have hstraight := straight_join hfree hroot haccepts.wellFormed
  obtain ⟨made, hmade, hnodes⟩ := createDirs_plain (place ++ splitComponents userPath).dropLast hfree
    resolved_root t.root (fun name hname => hstraight.ordinary name (List.dropLast_subset _ hname))
    fun p hp content => haccepts.parent_passable hfree hroot hp content
  exact ⟨made, hmade, fun p => by simpa using hnodes p⟩

/-- The key a tree is unlocked with. -/
def heldKey (found : Option DataKey) : Except AppError DataKey :=
  match found with
  | some key => .ok key
  | none => .error .locked

/-- A tree in which a file was put stores the vault with its value. -/
theorem leaves_place (hfree : t.LinkFree) (h : Stores P key t root w) {path : List String} (hpath : path ≠ [])
    (hdir : t.node (root ++ path) ≠ some .dir) {made : FileTree}
    (hframe : ∀ p, made.node p = if p <+: root ++ path.dropLast then some .dir else t.node p) {blob content : Bytes}
    (hread : readBytes P key blob = .ok content) :
    LeavesVault P key t root (w.place path content) (made.put (root ++ path) (.file blob)) := by
  have hfill := leaves_fill hfree h hframe
  have hnot : ¬ path <+: path.dropLast := by
    intro hpre
    exact dropLast_ne_self hpath (hpre.eq_of_length_le (by simp)).symm
  have hadmits : made.Admits (root ++ path) := by
    refine ⟨by simp [hpath], ?_, ?_⟩
    · rw [List.dropLast_append_of_ne_nil hpath, hframe, if_pos List.prefix_rfl]
    · rw [hframe, if_neg fun hpre => hnot (root_prefix_iff.mp hpre)]
      exact hdir
  refine ⟨hfill.linkFree.put _ (by simp), fun names hshown => ?_, fun p hp => ?_⟩
  · rw [Vault.place, dif_neg hpath]
    show Seals P key (if names <+: path.dropLast then some .folder
      else if names = path then some (.value content) else if path <+: names then none else w.item names) _
    by_cases hself : names = path
    · rw [hself, if_neg hnot, if_pos rfl, node_put_self hadmits]
      exact .value hread
    · rw [node_put_of_ne fun heq => hself (List.append_cancel_left heq), if_neg hself, hframe]
      by_cases habove : names <+: path.dropLast
      · rw [if_pos habove, if_pos (root_prefix_iff.mpr habove)]
        exact .folder
      · rw [if_neg habove, if_neg fun hpre => habove (root_prefix_iff.mp hpre)]
        by_cases hbelow : path <+: names
        · obtain ⟨rest, rfl⟩ := hbelow
          have hrest : rest ≠ [] := fun hnil => hself (by rw [hnil, List.append_nil])
          rw [if_pos (List.prefix_append path rest), ← List.append_assoc, node_append_of_not_dir hdir hrest]
          exact .missing
        · rw [if_neg hbelow]
          exact h names hshown
  · have hne : p ≠ root ++ path := fun heq => hp (heq ▸ List.prefix_append root path)
    rw [node_put_of_ne hne]
    exact hfill.outside p hp

theorem uploadOwned_stored (hP : P.Lawful) (hfree : t.LinkFree) {place : Path} (hroot : t.canonicalize root = .ok place)
    (haccepts : Accepts t place userPath) (hdir : t.node (place ++ splitComponents userPath) ≠ some .dir)
    {mimeFromFilename : String → Option String} {nonce : FixedBytes 12} {data blob : Bytes}
    (hblob : encryptFileBytes P key nonce data = .ok blob) (writeVerify : Bool) {made : FileTree}
    (hmade : t.createDirs [] (place ++ splitComponents userPath).dropLast = .ok made)
    (hframe : ∀ p, made.node p = if p <+: (place ++ splitComponents userPath).dropLast then some .dir else t.node p) :
    ∃ upload, (uploadOwned P mimeFromFilename (.ok key) root nonce userPath data writeVerify).Stops Quietly t
      (.ok upload) (made.put (place ++ splitComponents userPath) (.file blob)) := by
  have hstraight := straight_join hfree hroot haccepts.wellFormed
  have hne : place ++ splitComponents userPath ≠ [] := by simp [splitComponents_ne_nil]
  have hnot : ¬ place ++ splitComponents userPath <+: (place ++ splitComponents userPath).dropLast := by
    intro hpre
    exact dropLast_ne_self hne (hpre.eq_of_length_le (by simp)).symm
  have hmadeFree := hfree.createDirs hmade
  have hresolved : made.Resolved (place ++ splitComponents userPath) :=
    ⟨hstraight.ordinary, by rw [hframe, if_pos List.prefix_rfl], hmadeFree _⟩
  have hdest : made.createPlace (place ++ splitComponents userPath) = .ok (place ++ splitComponents userPath) :=
    createPlace_of_resolved hresolved (by rw [hframe, if_neg hnot]; exact hdir)
  have hprepare : (prepareUpload (.ok key) root userPath).Stops Quietly t
      (.ok (key, place ++ splitComponents userPath)) made :=
    prepareUpload_stops haccepts.wellFormed.nonempty (safeJoin_plain hfree hroot haccepts) hne hmade
  refine ⟨⟨userPath, data.length, blob.length, hexEncode (P.sha256 data).val,
    mimeFromFilename (fileName (place ++ splitComponents userPath))⟩, hprepare.bind ?_⟩
  refine (encryptAndWriteFileOwned_stops hP hdest hblob writeVerify).outcome.bind ?_
  exact (metadata_stops_of_fileAt (fileAt_put hdest blob) _).bind ⟨rfl, rfl⟩

/-- What a listing says of a name is what the vault has under it, unless the name is hidden. -/
theorem Stores.listedNames_eq (h : Stores P key t root w) {facts : EntryFacts} {path : List String}
    (hpath : ShownPath path) {entries sorted : List FsEntry}
    (hentries : entries.map FsEntry.unverified = ((t.children (root ++ path)).filter fun name => !isHidden name).map
      (listedAs facts t root (root ++ path))) (hsorted : ∀ {entry : FsEntry}, entry ∈ sorted ↔ entry ∈ entries)
    (name : String) : FileRequest.listedNames sorted name =
      if isListed name = true then (w.item (path ++ [name])).map Item.isFolder else none := by
  have hmem : ∀ other, other ∈ (t.children (root ++ path)).filter (fun name => !isHidden name) ↔
      isListed other = true ∧ w.item (path ++ [other]) ≠ none := by
    intro other
    rw [List.mem_filter, mem_children, List.append_assoc, and_comm]
    apply and_congr_right
    intro hother
    rw [ne_eq, h.node_none (hpath.concat hother)]
  unfold FileRequest.listedNames
  cases hfind : sorted.find? fun entry => entry.name = name with
  | none =>
      have hnot : ¬ (isListed name = true ∧ w.item (path ++ [name]) ≠ none) := by
        intro hlisted
        have hin := List.mem_map_of_mem (f := listedAs facts t root (root ++ path)) ((hmem name).mpr hlisted)
        rw [← hentries] at hin
        obtain ⟨entry, hentry, hsame⟩ := List.mem_map.mp hin
        have hname : entry.name = name := congrArg FsEntry.name hsame
        have hfails := List.find?_eq_none.mp hfind entry (hsorted.mpr hentry)
        exact hfails (by simpa using hname)
      by_cases hlisted : isListed name = true
      · have hnone : w.item (path ++ [name]) = none := by
          by_contra hsome
          exact hnot ⟨hlisted, hsome⟩
        rw [if_pos hlisted, hnone]
        rfl
      · rw [if_neg hlisted]
        rfl
  | some entry =>
      have hname : entry.name = name := by simpa using List.find?_some hfind
      have hin := List.mem_map_of_mem (f := FsEntry.unverified) (hsorted.mp (List.mem_of_find?_eq_some hfind))
      rw [hentries] at hin
      obtain ⟨other, hother, hsame⟩ := List.mem_map.mp hin
      have hsameName : other = entry.name := congrArg FsEntry.name hsame
      rw [hsameName, hname] at hother hsame
      obtain ⟨hlisted, hsome⟩ := (hmem name).mp hother
      have hkind : (metadataAt t (root ++ path ++ [name])).isDir = entry.isDir := congrArg FsEntry.isDir hsame
      have hstored := h (path ++ [name]) (hpath.concat hlisted)
      rw [if_pos hlisted, Option.map_some, ← hkind]
      rw [← List.append_assoc] at hstored
      cases hnode : t.node (root ++ path ++ [name]) with
      | none =>
          rw [List.append_assoc] at hnode
          exact absurd ((h.node_none (hpath.concat hlisted)).mp hnode) hsome
      | some n =>
          rw [metadataAt_of_node hnode]
          rw [hnode] at hstored
          generalize w.item (path ++ [name]) = item at hstored
          cases hstored <;> rfl

/-! ### Moving and removing -/

theorem leaves_cut (hfree : t.LinkFree) (h : Stores P key t root w) {path : List String} (hpath : path ≠ []) :
    LeavesVault P key t root (w.cut path) (t.removeAll (root ++ path)) where
  linkFree := hfree.removeAll _
  stores names hshown := by
    have hne : root ++ path ≠ [] := by simp [hpath]
    rw [Vault.cut, dif_neg hpath]
    show Seals P key (if path <+: names then none else w.item names) _
    by_cases hbelow : path <+: names
    · rw [if_pos hbelow, node_removeAll_of_below hne (root_prefix_iff.mpr hbelow)]
      exact .missing
    · rw [if_neg hbelow, node_removeAll_of_not_below fun hpre => hbelow (root_prefix_iff.mp hpre)]
      exact h names hshown
  outside p hp := node_removeAll_of_not_below fun hpre => hp ((List.prefix_append root path).trans hpre)

/-- A vault has what is needed to move an item to a free path outside it. -/
theorem movable_of_vacant {source dest : List String} (hinside : ¬ source <+: dest) (hpresent : w.item source ≠ none)
    (hvacant : w.item dest = none) : (w.fill dest.dropLast).Movable source dest where
  outside := hinside
  not_above hpre := by
    by_cases heq : dest = source
    · exact hpresent (heq ▸ hvacant)
    · have hfolder := w.folder_above hpre heq hpresent
      rw [hvacant] at hfolder
      cases hfolder
  folder := if_pos List.prefix_rfl

theorem leaves_shift {made : FileTree} {w' : Vault String Bytes} {source dest : List String}
    (hsourceShown : ShownPath source) (h : LeavesVault P key t root w' made) (hmovable : w'.Movable source dest)
    (hmove : made.Movable (root ++ source) (root ++ dest)) :
    LeavesVault P key t root (w'.shift source dest hmovable) (made.move (root ++ source) (root ++ dest)) where
  linkFree := h.linkFree.move _ _
  stores names hshown := by
    rw [node_move hmove]
    show Seals P key (if dest <+: names then w'.item (source ++ names.drop dest.length)
      else if source <+: names then none else w'.item names) _
    by_cases hbelow : dest <+: names
    · have hdrop : (root ++ names).drop (root ++ dest).length = names.drop dest.length := by
        rw [List.length_append, ← List.drop_drop, List.drop_left]
      rw [if_pos hbelow, if_pos (root_prefix_iff.mpr hbelow), hdrop, List.append_assoc]
      exact h.stores _ (hsourceShown.append (hshown.drop _))
    · rw [if_neg hbelow, if_neg fun hpre => hbelow (root_prefix_iff.mp hpre)]
      by_cases hsource : source <+: names
      · rw [if_pos hsource, if_pos (root_prefix_iff.mpr hsource)]
        exact .missing
      · rw [if_neg hsource, if_neg fun hpre => hsource (root_prefix_iff.mp hpre)]
        exact h.stores names hshown
  outside p hp := by
    rw [node_move_elsewhere hmove (fun hpre => hp ((List.prefix_append root source).trans hpre))
      fun hpre => hp ((List.prefix_append root dest).trans hpre)]
    exact h.outside p hp

variable (mimeFromFilename : String → Option String) (facts : EntryFacts)

section Requests

variable (hfree : t.LinkFree) (hord : ∀ name ∈ root, Ordinary name) (h : Stores P key t root w)

include hfree hord h

theorem mkdir_settles (userPath : String) :
    SettlesAs P key t root ((amongEntries (createDirectoryIn root userPath)).bind fun _ => Program.done .done)
      (w.reading readPath userPath w.mkdir) := by
  have hroot := h.canonicalize_root hord
  by_cases haccepts : Accepts t root userPath
  · have hopen := h.open_of_accepts haccepts
    rw [Stores.reading_of_accepts haccepts, Vault.mkdir, if_neg (not_not.mpr hopen)]
    have hmade : (∀ content, w.item (splitComponents userPath) ≠ some (.value content)) →
        SettlesAs P key t root ((amongEntries (createDirectoryIn root userPath)).bind fun _ => Program.done .done)
          (.done, w.fill (splitComponents userPath)) := by
      intro hitem
      obtain ⟨made, hstops, hframe⟩ := createDirectoryIn_stops hfree hroot haccepts fun content hfile => by
        obtain ⟨value, hvalue⟩ := h.node_file (.of_accepts haccepts) hfile
        exact hitem value hvalue
      exact settles_of_stops (stops_reply (amongEntries_stops hstops)) (leaves_fill hfree h hframe)
    cases hitem : w.item (splitComponents userPath) with
    | none => exact hmade fun content => by rw [hitem]; simp
    | some item =>
        cases item with
        | folder => exact hmade fun content => by rw [hitem]; simp
        | value content =>
            obtain ⟨blob, hblob, -⟩ := h.node_value (.of_accepts haccepts) hitem
            exact settles_of_refuses hfree h ((createDirectoryIn_occupied hfree hroot haccepts hblob).bind _)
  · have hmalformed : w.reading readPath userPath w.mkdir = (.refused .malformed, w) :=
      h.reading_of_not_accepts haccepts fun path hpath => by rw [Vault.mkdir, if_pos hpath]
    rw [hmalformed]
    exact settles_of_refuses hfree h ((createDirectoryIn_refuses hfree hroot haccepts).bind _)

theorem put_settles (hP : P.Lawful) (userPath : String) (nonce : FixedBytes 12) (data : Bytes) (writeVerify : Bool)
    (hfits : data.length ≤ maxPlaintextLen) {found : Option DataKey} (hfound : ∀ k, found = some k → k = key) :
    SettlesAs P key t root ((amongEntries (uploadOwned P mimeFromFilename
        (heldKey found) root nonce userPath data writeVerify)).bind
          fun _ => Program.done .done)
      (w.whenUnlocked (found ≠ none) readPath userPath
        (w.reading readPath userPath fun path => w.put path data)) := by
  have hroot := h.canonicalize_root hord
  by_cases hempty : userPath = ""
  · rw [hempty, Stores.whenUnlocked_root]
    exact settles_of_refuses hfree h (uploadOwned_root.bind _)
  cases found with
  | none =>
      rw [Stores.whenUnlocked_locked hempty (not_not.mpr rfl)]
      exact settles_of_refuses hfree h ((uploadOwned_locked hempty).bind _)
  | some k =>
      obtain rfl := hfound k rfl
      rw [Stores.whenUnlocked_of_key hempty (by simp)]
      by_cases haccepts : Accepts t root userPath
      · have hsealed := hP.encryptDetached_isSome k nonce data hfits
        have hput : t.node (root ++ splitComponents userPath) ≠ some .dir →
            SettlesAs P k t root ((amongEntries (uploadOwned P mimeFromFilename (.ok k) root nonce userPath data
              writeVerify)).bind fun _ => Program.done .done) (.done, w.place (splitComponents userPath) data) := by
          intro hdir
          obtain ⟨made, hmade, hframe⟩ := parents_made hfree hroot haccepts
          obtain ⟨blob, hblob⟩ : ∃ blob, encryptFileBytes P k nonce data = .ok blob := by
            obtain ⟨sealed, hsome⟩ := Option.isSome_iff_exists.mp hsealed
            rw [encryptFileBytes, Primitives.encrypt, hsome]
            exact ⟨_, rfl⟩
          obtain ⟨upload, hstops⟩ := uploadOwned_stored hP hfree hroot haccepts hdir hblob writeVerify hmade hframe
          rw [List.dropLast_append_of_ne_nil (splitComponents_ne_nil userPath)] at hframe
          have hread : readBytes P k blob = .ok data :=
            ((readBytes_single hblob).2).trans (decryptFileBytes_encryptFileBytes hP hblob)
          exact settles_of_stops (stops_reply (amongEntries_stops hstops))
            (leaves_place hfree h (splitComponents_ne_nil userPath) hdir hframe hread)
        rw [Stores.reading_of_accepts haccepts, Vault.put, if_neg (not_not.mpr (h.open_of_accepts haccepts))]
        have hdir := h.node_dir (.of_accepts haccepts)
        cases hitem : w.item (splitComponents userPath) with
        | none =>
            apply hput
            rw [ne_eq, hdir, hitem]
            simp
        | some item =>
            cases item with
            | folder =>
                exact settles_of_refuses hfree h
                  ((uploadOwned_occupied hfree hroot haccepts (hdir.mpr hitem) hsealed).bind _)
            | value content =>
                apply hput
                rw [ne_eq, hdir, hitem]
                simp
      · rw [h.reading_of_not_accepts haccepts fun path hpath => by rw [Vault.put, if_pos hpath]]
        exact settles_of_refuses hfree h ((uploadOwned_refuses hfree hroot haccepts).bind _)

theorem fetch_settles (userPath : String) {found : Option DataKey} (hfound : ∀ k, found = some k → k = key) :
    SettlesAs P key t root ((amongEntries (download P mimeFromFilename (heldKey found) root userPath)).bind
          fun result => Program.done (.value result.data))
      (w.whenUnlocked (found ≠ none) readPath userPath
        (w.reading readPath userPath fun path => (w.fetch path, w))) := by
  have hroot := h.canonicalize_root hord
  by_cases hempty : userPath = ""
  · rw [hempty, Stores.whenUnlocked_root]
    exact settles_of_refuses hfree h (download_root.bind _)
  cases found with
  | none =>
      rw [Stores.whenUnlocked_locked hempty (not_not.mpr rfl)]
      exact settles_of_refuses hfree h ((download_locked hempty).bind _)
  | some k =>
      obtain rfl := hfound k rfl
      rw [Stores.whenUnlocked_of_key hempty (by simp)]
      by_cases haccepts : Accepts t root userPath
      · rw [Stores.reading_of_accepts haccepts, Vault.fetch, if_neg (not_not.mpr (h.open_of_accepts haccepts))]
        cases hitem : w.item (splitComponents userPath) with
        | none =>
            have hnone := (h.node_none (.of_accepts haccepts)).mpr hitem
            exact settles_of_refuses hfree h ((download_missing hfree hroot haccepts hnone).bind _)
        | some item =>
            cases item with
            | folder =>
                have hdir := (h.node_dir (.of_accepts haccepts)).mpr hitem
                exact settles_of_refuses hfree h ((download_dir hfree hroot haccepts hdir).bind _)
            | value content =>
                obtain ⟨blob, hblob, hread⟩ := h.node_value (.of_accepts haccepts) hitem
                obtain ⟨result, hdata, hstops⟩ := download_stored hfree hroot haccepts hblob hread
                rw [← hdata]
                exact settles_of_stops
                  (stops_reply (amongEntries_stops hstops))
                  (leaves_self hfree h)
      · rw [h.reading_of_not_accepts haccepts fun path hpath => by rw [Vault.fetch, if_pos hpath]]
        exact settles_of_refuses hfree h ((download_refuses hfree hroot haccepts).bind _)

theorem list_settles (userPath : String) (dataKey : Option DataKey) (checkIntegrity : Bool) :
    SettlesAs P key t root ((amongEntries (listEntries P facts dataKey root userPath checkIntegrity)).bind
        fun entries => Program.done (.names (FileRequest.listedNames entries)))
      (w.reading readPath userPath fun path => (w.list isListed path, w)) := by
  have hroot := h.canonicalize_root hord
  have hshown : ∀ path, ShownPath path → t.Straight (root ++ path) → w.item path = some .folder →
      Target t root userPath (root ++ path) → w.Clear path →
        SettlesAs P key t root ((amongEntries (listEntries P facts dataKey root userPath checkIntegrity)).bind
          fun entries => Program.done (.names (FileRequest.listedNames entries))) (w.list isListed path, w) := by
    intro path hnames hstraight hitem htarget hclear
    have hdir := (h.node_dir hnames).mpr hitem
    have hresolved := resolved_of_straight hstraight (by rw [hdir]; simp)
    have hlisting := listEntries_returns P facts hresolved hdir (resolveTarget_plain hfree hroot htarget) dataKey
      checkIntegrity
    rw [Vault.list, if_neg (not_not.mpr hclear), hitem]
    apply Program.Ensures.bind (amongEntries_ensures hlisting)
    · intro value t' ⟨ht, entries, hvalue, hentries⟩
      cases hvalue
      have hlisted : FileRequest.listedNames (entries.insertionSort fun a b => entryLe facts a b) =
          fun name => if isListed name = true then (w.item (path ++ [name])).map Item.isFolder else none := by
        funext name
        exact h.listedNames_eq hnames hentries ((List.perm_insertionSort _ entries).mem_iff) name
      rw [hlisted, ht]
      exact ⟨.ok, leaves_self hfree h⟩
    · intro error t' ⟨_, entries, herror, _⟩
      cases herror
  by_cases hempty : userPath = ""
  · have hread : readPath userPath = some [] := if_pos hempty
    have hclear : w.Clear [] := fun front hfront hne => absurd (List.prefix_nil.mp hfront) hne
    rw [Vault.reading, hread]
    refine hshown [] .nil ?_ w.root (Or.inl ⟨hempty, List.append_nil root⟩) hclear
    rw [List.append_nil]
    exact straight_of_dir hord h.root_dir
  by_cases haccepts : Accepts t root userPath
  · have hclear := (h.open_of_accepts haccepts).2
    rw [Stores.reading_of_accepts haccepts]
    cases hitem : w.item (splitComponents userPath) with
    | none =>
        rw [Vault.list, if_neg (not_not.mpr hclear), hitem]
        have hnone := (h.node_none (.of_accepts haccepts)).mpr hitem
        exact settles_of_refuses hfree h ((listEntries_missing hfree hroot haccepts hnone).bind _)
    | some item =>
        cases item with
        | folder =>
            exact hshown _ (.of_accepts haccepts) (straight_join hfree hroot haccepts.wellFormed) hitem
              (Or.inr ⟨haccepts, rfl⟩) hclear
        | value content =>
            obtain ⟨blob, hblob, -⟩ := h.node_value (.of_accepts haccepts) hitem
            rw [Vault.list, if_neg (not_not.mpr hclear), hitem]
            exact settles_of_refuses hfree h
              ((listEntries_file hfree hroot (Or.inr ⟨haccepts, rfl⟩) hblob).bind _)
  · rw [h.reading_of_not_clear hempty haccepts fun path hpath => by rw [Vault.list, if_pos hpath]]
    exact settles_of_refuses hfree h ((listEntries_refuses hfree hroot hempty haccepts).bind _)

theorem remove_settles (kind userPath : String) :
    SettlesAs P key t root ((deleteIn kind root userPath).bind fun _ => Program.done .done)
      (w.reading readPath userPath w.remove) := by
  have hroot := h.canonicalize_root hord
  by_cases haccepts : Accepts t root userPath
  · rw [Stores.reading_of_accepts haccepts, Vault.remove, if_neg (not_not.mpr (h.open_of_accepts haccepts))]
    have hnone := h.node_none (.of_accepts haccepts)
    by_cases hitem : w.item (splitComponents userPath) = none
    · rw [if_pos hitem]
      exact settles_of_refuses hfree h ((deleteIn_missing hfree hroot kind haccepts (hnone.mpr hitem)).bind _)
    · have hnamed : namedEntry t root userPath = some (root ++ splitComponents userPath) :=
        namedEntry_eq_some.mpr ⟨haccepts.wellFormed, rfl, mt hnone.mp hitem⟩
      rw [if_neg hitem]
      exact settles_of_stops (stops_reply (deleteIn_stops hfree hroot kind hnamed))
        (leaves_cut hfree h (splitComponents_ne_nil userPath))
  · rw [h.reading_of_not_accepts haccepts fun path hpath => by rw [Vault.remove, if_pos hpath]]
    exact settles_of_refuses hfree h ((deleteIn_refuses hfree hroot kind haccepts).bind _)

theorem move_settles (kind oldPath newPath : String) :
    SettlesAs P key t root ((renameIn kind root oldPath newPath).bind fun _ => Program.done .done)
      (w.reading readPath oldPath fun source => w.reading readPath newPath fun dest => w.move source dest) := by
  have hroot := h.canonicalize_root hord
  by_cases hboth : Accepts t root oldPath ∧ Accepts t root newPath
  · obtain ⟨hsource, hdest⟩ := hboth
    rw [Stores.reading_of_accepts hsource, Stores.reading_of_accepts hdest]
    have hopen : ¬ (¬ w.Open (splitComponents oldPath) ∨ ¬ w.Open (splitComponents newPath)) := fun hor =>
      hor.elim (fun hnot => hnot (h.open_of_accepts hsource)) fun hnot => hnot (h.open_of_accepts hdest)
    rw [Vault.move, if_neg hopen]
    have holdNone := h.node_none (.of_accepts hsource)
    have hnewNone := h.node_none (.of_accepts hdest)
    by_cases hpresent : w.item (splitComponents oldPath) = none
    · rw [if_pos hpresent]
      exact settles_of_refuses hfree h
        ((renameIn_missing hfree hroot kind hsource hdest (holdNone.mpr hpresent)).bind _)
    rw [if_neg hpresent]
    have hnode : t.node (root ++ splitComponents oldPath) ≠ none := mt holdNone.mp hpresent
    by_cases hvacant : w.item (splitComponents newPath) = none
    · have hrenamable : Renamable t root oldPath newPath := ⟨hsource, hdest, hnode, hnewNone.mpr hvacant⟩
      rw [if_neg (not_not.mpr hvacant)]
      by_cases hinside : splitComponents oldPath <+: splitComponents newPath
      · obtain ⟨error, made, hstatus, -, hframe, hstops⟩ := renameIn_inside hfree hroot kind hrenamable hinside
        rw [List.dropLast_append_of_ne_nil (splitComponents_ne_nil newPath)] at hframe
        rw [dif_neg fun hmovable => hmovable.outside hinside]
        apply Program.Ensures.mono hstops.bind_error
        intro result t' ⟨hresult, ht⟩
        rw [hresult, ht]
        exact ⟨.error hstatus, leaves_fill hfree h hframe⟩
      · obtain ⟨made, -, hframe, hends⟩ := renameIn_stops hfree hroot kind hrenamable
        rw [if_neg hinside] at hends
        rw [List.dropLast_append_of_ne_nil (splitComponents_ne_nil newPath)] at hframe
        have hmovable := movable_of_vacant hinside hpresent hvacant
        rw [dif_pos hmovable]
        exact settles_of_stops (stops_reply hends.2)
          (leaves_shift (.of_accepts hsource) (leaves_fill hfree h hframe) hmovable hends.1)
    · rw [if_pos hvacant]
      exact settles_of_refuses hfree h
        ((renameIn_occupied hfree hroot kind hsource hdest hnode (mt hnewNone.mp hvacant)).bind _)
  · have hmalformed : w.reading readPath oldPath (fun source => w.reading readPath newPath fun dest =>
        w.move source dest) = (.refused .malformed, w) := by
      by_cases hsource : Accepts t root oldPath
      · rw [Stores.reading_of_accepts hsource]
        exact h.reading_of_not_accepts (fun hdest => hboth ⟨hsource, hdest⟩) fun dest hopen => by
          rw [Vault.move, if_pos (Or.inr hopen)]
      · apply h.reading_of_not_accepts hsource
        intro source hopen
        unfold Vault.reading
        cases readPath newPath with
        | none => rfl
        | some dest => exact if_pos (Or.inl hopen)
    rw [hmalformed]
    exact settles_of_refuses hfree h ((renameIn_refuses hfree hroot kind hboth).bind _)

end Requests

end IronDrive
