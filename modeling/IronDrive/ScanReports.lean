import IronDrive.VaultRefinement

/-! What an integrity scan reports. Each visible file that does not verify is reported once, under its path below
the root, and no other file is, in whatever order the directories are listed and whatever becomes of the
insertions. -/

namespace IronDrive

open Lib FileTree FsService CryptoService IntegrityService

variable {t : FileTree} {start place : Path} {names : List String} {P : Primitives}

/-- The names lead from the start to a visible directory. -/
def LeadsDown (t : FileTree) (place : Path) (names : List String) : Prop :=
  (∀ name ∈ names, isHidden name = false) ∧ t.node (place ++ names) = some .dir

theorem opens_below (hfree : t.LinkFree) (hstart : OpensDir t start place) (h : LeadsDown t place names) :
    OpensDir t (start ++ names) (place ++ names) := by
  induction names using List.reverseRecOn with
  | nil => simpa using hstart
  | append_singleton names name ih =>
      have hname : isHidden name = false := h.1 name (by simp)
      have hdir := h.2
      rw [← List.append_assoc] at hdir
      have habove : LeadsDown t place names := by
        refine ⟨fun other hother => h.1 other (List.mem_append_left _ hother), ?_⟩
        have hparent := t.parent (place ++ names ++ [name]) (by simp) (by rw [hdir]; simp)
        rwa [List.dropLast_concat] at hparent
      rw [← List.append_assoc, ← List.append_assoc]
      exact (ih habove).down hfree (ordinary_of_shown hname) hdir

section Walk

variable {S : Signature} {σ ν : Type} {H : (op : S.Op) → ν → S.Answer op → ν → Prop}

/-- What a walk relies on that keeps records: its calls are answered from the tree and leave the records alone, and
what is gathered and recorded goes on standing for the entries visited, each visited under its own path. -/
structure Surveys (H : (op : S.Op) → ν → S.Answer op → ν → Prop) (t : FileTree) (start place : Path)
    (Stands : σ → ν → List Path → Prop) (call : (op : FsCall) → Program S AppError op.Answer) (onDir : σ → σ)
    (onFile : Path → Metadata → σ → Program S AppError σ) : Prop where
  lstat : ∀ path acc v seen, Stands acc v seen → (call (.symlinkMetadata path)).Ensures H v fun result v' =>
    Stands acc v' seen ∧ result = .ok ((FsCall.lstat t path).mapError IoError.ofKind)
  readDir : ∀ path acc v seen, Stands acc v seen → (call (.readDir path)).Ensures H v fun result v' =>
    Stands acc v' seen ∧ result = .ok (((FsCall.listDir t path).map fun names => (names, none)).mapError IoError.ofKind)
  dir : ∀ acc v seen p, Stands acc v seen → t.node p = some .dir → Stands (onDir acc) v (seen ++ [p])
  file : ∀ acc v seen names content, Stands acc v seen → t.fileAt (start ++ names) = .ok (place ++ names, content) →
    (onFile (start ++ names) (Metadata.ofNode (.file content)) acc).Ensures H v fun result v' =>
      ∃ acc', result = .ok acc' ∧ Stands acc' v' (seen ++ [place ++ names])

variable {Stands : σ → ν → List Path → Prop} {call : (op : FsCall) → Program S AppError op.Answer}
  {onDir : σ → σ} {onFile : Path → Metadata → σ → Program S AppError σ}

theorem fileAt_of_opens {dir : Path} {name : String} {content : Bytes} (h : OpensDir t dir place)
    (hfree : t.LinkFree) (hname : Ordinary name) (hnode : t.node (place ++ [name]) = some (.file content)) :
    t.fileAt (dir ++ [name]) = .ok (place ++ [name], content) := by
  have hlocate : t.locate (dir ++ [name]) = .ok (place ++ [name]) := by
    apply locate_of_walk
    rw [walk_append_of_stop dir [name] (walk_of_locate hfree h.1) h.2, walk, if_neg (not_not.mpr h.2),
      if_neg hname.1, if_neg hname.2, hnode]
    rfl
  simp [fileAt, hlocate, hnode, bind, Except.bind, pure, Except.pure]

theorem walkNames_surveys (h : Surveys H t start place Stands call onDir onFile) (hfree : t.LinkFree)
    (hstart : OpensDir t start place) {below : List String} (hbelow : LeadsDown t place below) (names : List String)
    (hnames : ∀ name ∈ names, name ∈ t.children (place ++ below)) :
    ∀ {stack : List (List String)} {acc : σ} {seen : List Path} {v : ν}, (∀ dir ∈ stack, LeadsDown t place dir) →
      Stands acc v seen →
        (walkNames call onDir onFile (start ++ below) names (stack.map (start ++ ·)) acc).Ensures H v fun result v' =>
          ∃ (stack' : List (List String)) (acc' : σ), result = .ok (stack'.map (start ++ ·), acc') ∧
            (∀ dir ∈ stack', LeadsDown t place dir) ∧
            stack'.map (place ++ ·) = shownDirs t (place ++ below) names ++ stack.map (place ++ ·) ∧
            Stands acc' v' (seen ++ shownChildren (place ++ below) names) := by
  induction names with
  | nil =>
      intro stack acc seen v hstack hstands
      exact ⟨stack, acc, rfl, hstack, rfl, by simpa [shownChildren] using hstands⟩
  | cons name names ih =>
      intro stack acc seen v hstack hstands
      have hlater := @ih fun other hother => hnames other (List.mem_cons_of_mem _ hother)
      rw [walkNames]
      by_cases hhidden : isHidden name = true
      · rw [if_pos hhidden]
        have hskip : (name :: names).filter isShown = names.filter isShown :=
          List.filter_cons_of_neg (by simp [isShown, hhidden])
        simpa only [shownDirs, shownChildren, hskip] using hlater hstack hstands
      have hshown : isHidden name = false := by simpa using hhidden
      have hkeep : (name :: names).filter isShown = name :: names.filter isShown :=
        List.filter_cons_of_pos (by simp [isShown, hshown])
      have hopen := opens_below hfree hstart hbelow
      obtain ⟨n, hnode⟩ := Option.ne_none_iff_exists'.mp (mem_children.mp (hnames name (by simp)))
      have hlist : ∀ other ∈ below ++ [name], isHidden other = false := by
        intro other hother
        rcases List.mem_append.mp hother with hother | hother
        · exact hbelow.1 other hother
        · rw [List.mem_singleton.mp hother]
          exact hshown
      rw [if_neg hhidden]
      apply Program.Ensures.bind (h.lstat (start ++ below ++ [name]) acc v seen hstands)
      · intro answer v' h
        obtain ⟨hstands', hanswer⟩ := h
        rw [hopen.lstat hnode] at hanswer
        cases hanswer
        cases n with
        | symlink absolute target => exact absurd hnode (hfree _ _ _)
        | dir =>
            rw [List.append_assoc] at hnode
            have hisDir : isDirAt t (place ++ (below ++ [name])) = true := by simp [isDirAt, hnode]
            have hdown : LeadsDown t place (below ++ [name]) := ⟨hlist, hnode⟩
            have hmore : ∀ dir ∈ (below ++ [name]) :: stack, LeadsDown t place dir := by
              intro dir hdir
              rcases List.mem_cons.mp hdir with heq | hmem
              · exact heq ▸ hdown
              · exact hstack dir hmem
            have hpush : (start ++ below ++ [name]) :: stack.map (start ++ ·) =
                ((below ++ [name]) :: stack).map (start ++ ·) := by simp
            have hrest := hlater hmore (h.dir acc v' seen _ hstands' hnode)
            rw [← hpush] at hrest
            apply Program.Ensures.mono hrest
            intro result v'' h
            obtain ⟨stack', acc', hresult, hall, hplaces, hstands''⟩ := h
            refine ⟨stack', acc', hresult, hall, ?_, ?_⟩
            · simpa only [shownDirs, shownChildren, hkeep, List.map_cons, List.filter_cons_of_pos hisDir,
                List.reverse_cons, List.append_assoc, List.singleton_append] using hplaces
            · simpa only [shownChildren, hkeep, List.map_cons, List.append_assoc, List.singleton_append]
                using hstands''
        | file content =>
            have hfile := fileAt_of_opens hopen hfree (ordinary_of_shown hshown) hnode
            have hisDir : ¬ isDirAt t (place ++ below ++ [name]) = true := by
              rw [isDirAt, hnode]
              simp
            rw [List.append_assoc, List.append_assoc] at hfile
            have hrecord := h.file acc v' seen (below ++ [name]) content hstands' hfile
            rw [← List.append_assoc] at hrecord
            apply Program.Ensures.bind hrecord
            · intro acc₁ v₁ h
              obtain ⟨found, hfound, hstands₁⟩ := h
              cases hfound
              apply Program.Ensures.mono (hlater hstack hstands₁)
              intro result v'' h
              obtain ⟨stack', acc', hresult, hall, hplaces, hstands''⟩ := h
              refine ⟨stack', acc', hresult, hall, ?_, ?_⟩
              · simpa only [shownDirs, shownChildren, hkeep, List.map_cons, List.filter_cons_of_neg hisDir]
                  using hplaces
              · simpa only [shownChildren, hkeep, List.map_cons, List.append_assoc, List.singleton_append]
                  using hstands''
            · intro error v₁ h
              obtain ⟨found, hfound, _⟩ := h
              cases hfound
      · intro error v' h
        obtain ⟨_, hanswer⟩ := h
        cases hanswer

/-- The walk visits what is below the directories on its stack, each entry once. -/
theorem walkTree_surveys (h : Surveys H t start place Stands call onDir onFile) (hfree : t.LinkFree)
    (hstart : OpensDir t start place) (fuel : Nat) :
    ∀ {stack : List (List String)} {acc : σ} {seen : List Path} {v : ν}, (∀ dir ∈ stack, LeadsDown t place dir) →
      pendingDirs t (stack.map (place ++ ·)) ≤ fuel → Stands acc v seen →
        (walkTree call onDir onFile fuel (stack.map (start ++ ·)) acc).Ensures H v fun result v' =>
          ∃ acc' seen', result = .ok (some acc') ∧ Stands acc' v' seen' ∧
            seen'.Perm (seen ++ (t.branching isShown).under (stack.map (place ++ ·))) := by
  induction fuel with
  | zero =>
      intro stack acc seen v hstack hfuel hstands
      cases stack with
      | nil => exact ⟨acc, seen, rfl, hstands, by simp⟩
      | cons dir stack =>
          rw [List.map_cons, pendingDirs_pop] at hfuel
          omega
  | succ fuel ih =>
      intro stack acc seen v hstack hfuel hstands
      cases stack with
      | nil => exact ⟨acc, seen, rfl, hstands, by simp⟩
      | cons below stack =>
          have hbelow := hstack below (List.mem_cons_self ..)
          rw [List.map_cons, pendingDirs_pop] at hfuel
          rw [List.map_cons, walkTree]
          apply Program.Ensures.bind (h.readDir (start ++ below) acc v seen hstands)
          · intro answer v₁ h
            obtain ⟨hstands₁, hanswer⟩ := h
            rw [(opens_below hfree hstart hbelow).listDir] at hanswer
            cases hanswer
            apply Program.Ensures.bind (walkNames_surveys h hfree hstart hbelow (t.children (place ++ below))
              (fun _ hname => hname) (fun dir hdir => hstack dir (List.mem_cons_of_mem _ hdir)) hstands₁)
            · intro value v₂ h
              obtain ⟨stack', acc', hvalue, hall, hplaces, hstands₂⟩ := h
              cases hvalue
              apply Program.Ensures.mono (ih hall (by rw [hplaces]; omega) hstands₂)
              intro result v₃ h
              obtain ⟨acc₃, seen₃, hresult, hstands₃, hperm⟩ := h
              refine ⟨acc₃, seen₃, hresult, hstands₃, hperm.trans ?_⟩
              have hpop := Branching.under_pop (b := t.branching isShown) (place ++ below) (stack.map (place ++ ·))
              rw [hplaces, List.append_assoc]
              exact (((under_shownDirs t (place ++ below) _).append_left _).trans hpop.symm).append_left seen
            · intro error v₂ h
              obtain ⟨stack', acc', hfound, _⟩ := h
              cases hfound
          · intro error v₁ h
            obtain ⟨_, hanswer⟩ := h
            cases hanswer

end Walk

/-- The bytes pass the check: with a key all of it, without one only the hash. -/
def Sound (P : Primitives) (dataKey : Option DataKey) (content : Bytes) : Prop :=
  match dataKey with
  | some key => Verifies P key content
  | none => HashOk P content

theorem hashOk_of_verifies {key : DataKey} {content : Bytes} (h : Verifies P key content) : HashOk P content := by
  unfold Verifies at h
  split at h
  · exact h.1
  · obtain ⟨plaintext, hplain⟩ := h
    exact ((decryptFileBytesInner_eq_ok key plaintext).mp ((decryptFileBytes_eq_ok key plaintext).mp hplain)).2.1

theorem verifyFileIntegrity_ne_mismatch {key : DataKey} {content : Bytes} (h : HashOk P content) :
    verifyFileIntegrity P key content ≠ .fileHashMismatch := by
  intro hmismatch
  have hinner : decryptFileBytesInner P key content = .fileHashMismatch := by
    unfold verifyFileIntegrity at hmismatch
    split at hmismatch
    · cases hmismatch
    · assumption
    · cases hmismatch
  unfold decryptFileBytesInner at hinner
  split_ifs at hinner
  dsimp only at hinner
  rw [if_neg (not_not.mpr h.2)] at hinner
  split at hinner <;> cases hinner

/-- The check gives the status of the bytes: a mismatch exactly where the hash is wrong. -/
theorem verifyFileIntegrityAsync_status {path : Path} {content : Bytes} (h : t.fileAt path = .ok (place, content))
    (dataKey : Option DataKey) :
    (verifyFileIntegrityAsync P dataKey path).Ensures Quietly t fun result t' => t' = t ∧ ∃ status,
      result = .ok status ∧ (status = .ok ↔ Sound P dataKey content) ∧
        (status = .fileHashMismatch ↔ ¬ HashOk P content) := by
  have hmismatch : (verifyFileIntegrityAsync P dataKey path).Ensures Quietly t fun result _ =>
      result = .ok .fileHashMismatch ↔ ¬ HashOk P content := by
    apply (verifyFileHash_stops h).outcome.ensures_bind
    by_cases hhash : HashOk P content
    · rw [verifyFileHashBytes_of_hashOk P hhash]
      have hnot : ∀ {result : Except AppError IntegrityStatus}, result ≠ .ok .fileHashMismatch →
          (result = .ok .fileHashMismatch ↔ ¬ HashOk P content) := fun hne =>
        iff_of_false hne (not_not.mpr hhash)
      cases dataKey with
      | none => exact hnot (by simp)
      | some key =>
          apply (isStreamFormat_stops h).ensures_bind
          by_cases hmagic : slice content 0 3 = streamMagic
          · simp only [hmagic, decide_true, if_true]
            apply Program.Ensures.bind (streamVerifyDecryption_ensures h key hmagic).outcome
            · intro inner t' _
              cases inner with
              | ok u => exact hnot (by simp)
              | error e => exact hnot (by simp)
            · intro error t' h
              obtain ⟨inner, hinner, _⟩ := h
              cases hinner
          · simp only [hmagic, decide_false, Bool.false_eq_true, if_false]
            have hread : (fsCall (.readFile path)).Stops Quietly t (.ok (.ok content)) t := by
              apply fsCall_stops
              intro choice hquiet
              simp [FsCall.perform, hquiet, h, Except.map, Except.mapError]
            apply hread.ensures_bind
            exact hnot fun heq => verifyFileIntegrity_ne_mismatch hhash (Except.ok.inj heq)
    · obtain ⟨error, herror⟩ := verifyFileHashBytes_of_not_hashOk P hhash
      rw [herror]
      exact iff_of_true rfl hhash
  have hsound : (verifyFileIntegrityAsync P dataKey path).Ensures Quietly t fun result _ =>
      result = .ok .ok ↔ Sound P dataKey content := by
    cases dataKey with
    | some key =>
        apply Program.Ensures.mono (verifyFileIntegrityAsync_ensures h key)
        exact fun result t' hresult => hresult.2
    | none =>
        apply (verifyFileHash_stops h).outcome.ensures_bind
        by_cases hhash : HashOk P content
        · rw [verifyFileHashBytes_of_hashOk P hhash]
          exact iff_of_true rfl hhash
        · obtain ⟨error, herror⟩ := verifyFileHashBytes_of_not_hashOk P hhash
          rw [herror]
          exact iff_of_false (by simp) hhash
  apply Program.Ensures.mono ((verifyFileIntegrityAsync_returns P dataKey path t).and (hmismatch.and hsound))
  intro result t' h
  obtain ⟨⟨ht, status, hresult⟩, hmis, hok⟩ := h
  subst hresult
  exact ⟨ht, status, rfl, by simpa using hok, by simpa using hmis⟩

/-- How a visible file is reported: under the names below the root, as what the check found. -/
structure Reported (P : Primitives) (t : FileTree) (place : Path) (targetType targetId : String) (p : Path)
    (insert : EventInsert) : Prop where
  target : insert.targetType = targetType ∧ insert.targetId = targetId
  path : ∃ names, p = place ++ names ∧ insert.filePath = slashed names
  kind : ∀ content, t.node p = some (.file content) →
    if HashOk P content then insert.eventType = "file_truncated" ∨ insert.eventType = "decrypt_failed"
    else insert.eventType = "checksum_mismatch"
  detectedBy : insert.detectedBy = "background_scan"

/-- A file at the place fails the check. -/
def Unsound (P : Primitives) (dataKey : Option DataKey) (t : FileTree) (p : Path) : Prop :=
  ∃ content, t.node p = some (.file content) ∧ ¬ Sound P dataKey content

open Classical in
/-- The files among some entries that fail the check. -/
noncomputable def unsoundFiles (P : Primitives) (dataKey : Option DataKey) (t : FileTree) (entries : List Path) :
    List Path := entries.filter fun p => Unsound P dataKey t p

section Scan

variable {dataKey : Option DataKey} {targetType targetId : String} {content : Bytes} {seen : List Path} {p : Path}

theorem unsoundFiles_concat (h : Unsound P dataKey t p) :
    unsoundFiles P dataKey t (seen ++ [p]) = unsoundFiles P dataKey t seen ++ [p] := by
  simp [unsoundFiles, h]

theorem unsoundFiles_skip (h : ¬ Unsound P dataKey t p) :
    unsoundFiles P dataKey t (seen ++ [p]) = unsoundFiles P dataKey t seen := by
  simp [unsoundFiles, h]

theorem mem_unsoundFiles {entries : List Path} :
    p ∈ unsoundFiles P dataKey t entries ↔ p ∈ entries ∧ Unsound P dataKey t p := by
  simp [unsoundFiles]

theorem unsound_iff (hnode : t.node p = some (.file content)) :
    Unsound P dataKey t p ↔ ¬ Sound P dataKey content := by
  constructor
  · intro h
    obtain ⟨found, hfound, hnot⟩ := h
    rw [hnode] at hfound
    cases hfound
    exact hnot
  · exact fun hnot => ⟨content, hnode, hnot⟩

/-- The calls of a scan: those of the file API without faults, and the insertions it asks for, whatever becomes of
them. -/
abbrev AskAccount : (op : scanSignature.Op) → FileTree × List EventInsert → scanSignature.Answer op →
    FileTree × List EventInsert → Prop :=
  Program.sumAccount Quietly fun insert asked _ asked' => asked' = asked ++ [insert]

/-- A scan that has visited some entries has counted the files among them, and asked for a report of each one that
fails the check. -/
structure Scanned (P : Primitives) (dataKey : Option DataKey) (t : FileTree) (place : Path)
    (targetType targetId : String) (scan : ScanResult) (v : FileTree × List EventInsert) (seen : List Path) : Prop where
  tree : v.1 = t
  files : scan.filesScanned = scannedOf t seen
  reports : List.Forall₂ (Reported P t place targetType targetId) (unsoundFiles P dataKey t seen) v.2
  failures : scan.failuresFound = v.2.length % 2 ^ 64

theorem scannedOf_file (hnode : t.node p = some (.file content)) :
    scannedOf t (seen ++ [p]) = (scannedOf t seen + 1) % 2 ^ 64 := by
  have hdir : isDirAt t p = false := by simp [isDirAt, hnode]
  rw [scannedOf, scannedOf, List.filter_append, List.length_append, Nat.mod_add_mod]
  simp [hdir]

/-- A report that is asked for joins the others. -/
theorem Scanned.report {scan : ScanResult} {v : FileTree × List EventInsert}
    (h : Scanned P dataKey t place targetType targetId scan v seen) (hnode : t.node p = some (.file content))
    (hunsound : ¬ Sound P dataKey content) {insert : EventInsert}
    (hreported : Reported P t place targetType targetId p insert) :
    Scanned P dataKey t place targetType targetId
      ⟨(scan.filesScanned + 1) % 2 ^ 64, (scan.failuresFound + 1) % 2 ^ 64⟩ (v.1, v.2 ++ [insert]) (seen ++ [p]) where
  tree := h.tree
  files := by rw [scannedOf_file hnode, h.files]
  reports := by
    rw [unsoundFiles_concat ((unsound_iff hnode).mpr hunsound)]
    exact List.rel_append h.reports (.cons hreported .nil)
  failures := by
    show (scan.failuresFound + 1) % 2 ^ 64 = (v.2 ++ [insert]).length % 2 ^ 64
    rw [h.failures, Nat.mod_add_mod, List.length_append, List.length_singleton]

theorem scanFile_scans {scan : ScanResult} {v : FileTree × List EventInsert}
    (h : Scanned P dataKey t place targetType targetId scan v seen)
    (hfile : t.fileAt (start ++ names) = .ok (place ++ names, content)) :
    (scanFile P targetType targetId start dataKey (start ++ names) scan).Ensures AskAccount v fun result v' =>
      ∃ scan', result = .ok scan' ∧
        Scanned P dataKey t place targetType targetId scan' v' (seen ++ [place ++ names]) := by
  have hnode := (locate_of_fileAt hfile).2
  obtain ⟨tree, asked⟩ := v
  obtain rfl : tree = t := h.tree
  rw [scanFile]
  apply Program.Ensures.bind (Program.Ensures.inl (verifyFileIntegrityAsync_status hfile dataKey))
  · intro status v₁ h
    obtain ⟨⟨hkept, found, hfound, hsound, hmismatch⟩, hasked⟩ := h
    cases hfound
    obtain ⟨tree₁, asked₁⟩ := v₁
    obtain rfl : tree₁ = tree := hkept
    obtain rfl : asked₁ = asked := hasked
    cases status with
    | ok =>
        have hok := hsound.mp rfl
        refine ⟨_, rfl, rfl, ?_, ?_, h.failures⟩
        · rw [scannedOf_file hnode, h.files]
        · rw [unsoundFiles_skip fun hunsound => (unsound_iff hnode).mp hunsound hok]
          exact h.reports
    | fileHashMismatch =>
        have hnot : ¬ Sound P dataKey content := fun hok => by cases hsound.mpr hok
        intro answer v₂ h
        obtain ⟨hasks, hsame⟩ := h
        obtain ⟨tree₂, asked₂⟩ := v₂
        obtain rfl : tree₂ = tree₁ := hsame
        obtain rfl : asked₂ = asked₁ ++ [_] := hasks
        refine ⟨_, rfl, h.report hnode hnot ⟨⟨rfl, rfl⟩, ⟨names, rfl, relativeDisplayPath_append start names⟩, ?_, rfl⟩⟩
        intro found hfile'
        rw [hnode] at hfile'
        cases hfile'
        rw [if_neg (hmismatch.mp rfl)]
    | decryptionFailed message =>
        have hnot : ¬ Sound P dataKey content := fun hok => by cases hsound.mpr hok
        have hhash : HashOk P content := by
          by_contra hno
          cases hmismatch.mpr hno
        intro answer v₂ h
        obtain ⟨hasks, hsame⟩ := h
        obtain ⟨tree₂, asked₂⟩ := v₂
        obtain rfl : tree₂ = tree₁ := hsame
        obtain rfl : asked₂ = asked₁ ++ [_] := hasks
        refine ⟨_, rfl, h.report hnode hnot ⟨⟨rfl, rfl⟩, ⟨names, rfl, relativeDisplayPath_append start names⟩, ?_, rfl⟩⟩
        intro found hfile'
        rw [hnode] at hfile'
        cases hfile'
        rw [if_pos hhash]
        dsimp only
        split
        · exact Or.inl rfl
        · exact Or.inr rfl
  · intro error v₁ h
    obtain ⟨⟨_, found, hfound, _⟩, _⟩ := h
    cases hfound

theorem scan_surveys (P : Primitives) (dataKey : Option DataKey) (t : FileTree) (start place : Path)
    (targetType targetId : String) :
    Surveys AskAccount t start place (Scanned P dataKey t place targetType targetId) scanCall id
      fun path _ scan => scanFile P targetType targetId start dataKey path scan where
  lstat path acc v seen h := by
    obtain ⟨tree, asked⟩ := v
    obtain rfl : tree = t := h.tree
    apply Program.Ensures.mono (Program.Ensures.inl (symlinkMetadata_stops tree path))
    intro result v' h
    obtain ⟨⟨hresult, hkept⟩, hasked⟩ := h
    obtain ⟨tree', asked'⟩ := v'
    obtain rfl : tree' = tree := hkept
    obtain rfl : asked' = asked := hasked
    exact ⟨h, hresult⟩
  readDir path acc v seen h := by
    obtain ⟨tree, asked⟩ := v
    obtain rfl : tree = t := h.tree
    apply Program.Ensures.mono (Program.Ensures.inl (readDir_stops tree path))
    intro result v' h
    obtain ⟨⟨hresult, hkept⟩, hasked⟩ := h
    obtain ⟨tree', asked'⟩ := v'
    obtain rfl : tree' = tree := hkept
    obtain rfl : asked' = asked := hasked
    exact ⟨h, hresult⟩
  dir acc v seen p h hnode := by
    have hdir : isDirAt t p = true := by simp [isDirAt, hnode]
    have hskip : ¬ Unsound P dataKey t p := by
      intro h
      obtain ⟨content, hfile, _⟩ := h
      rw [hnode] at hfile
      cases hfile
    refine ⟨h.tree, ?_, ?_, h.failures⟩
    · simpa [scannedOf, hdir] using h.files
    · rw [unsoundFiles_skip hskip]
      exact h.reports
  file acc v seen names content h hfile := scanFile_scans h hfile

theorem scanDirectory_reports (P : Primitives) (dataKey : Option DataKey) (targetType targetId : String)
    (hfree : t.LinkFree) (hstart : OpensDir t start place) {fuel : Nat} (hfuel : (visibleDirs t place).length < fuel) :
    (scanDirectory P fuel targetType targetId start start dataKey).Ensures AskAccount (t, []) fun result v' =>
      ∃ scan seen, result = .ok (some scan) ∧ seen.Perm (visibleBelow t place) ∧
        Scanned P dataKey t place targetType targetId scan v' seen := by
  have hpending : pendingDirs t [place] ≤ fuel := by
    rw [pendingDirs, Branching.under_cons, Branching.under_nil, List.append_nil, List.countP_eq_length_filter,
      List.length_singleton]
    show 1 + (visibleDirs t place).length ≤ fuel
    omega
  have hempty : ∀ dir ∈ ([[]] : List (List String)), LeadsDown t place dir := by
    intro dir hdir
    rw [List.mem_singleton.mp hdir]
    exact ⟨by simp, by rw [List.append_nil]; exact hstart.2⟩
  have hnone : Scanned P dataKey t place targetType targetId ⟨0, 0⟩ (t, []) [] :=
    ⟨rfl, rfl, by simp [unsoundFiles], rfl⟩
  have hwalk := walkTree_surveys (scan_surveys P dataKey t start place targetType targetId) hfree hstart fuel
    hempty (by simpa using hpending) hnone
  rw [List.map_singleton, List.append_nil] at hwalk
  apply Program.Ensures.mono hwalk
  intro result v' h
  obtain ⟨scan, seen, hresult, hscanned, hperm⟩ := h
  refine ⟨scan, seen, hresult, ?_, hscanned⟩
  simpa [visibleBelow] using hperm

end Scan

/-- The log once an insertion has been tried. -/
def EventLog.tried (draws : Nat → EventDraw) (log : EventLog) (insert : EventInsert) : EventLog :=
  (eventHandler draws insert log).2

/-- The row says what was to be inserted, and nobody has acknowledged it. -/
structure IntegrityEvent.Records (event : IntegrityEvent) (insert : EventInsert) : Prop where
  target : event.targetType = insert.targetType ∧ event.targetId = insert.targetId
  path : event.filePath = insert.filePath
  kind : event.eventType = insert.eventType ∧ event.details = insert.details
  detectedBy : event.detectedBy = insert.detectedBy
  unacknowledged : event.acknowledged = 0

/-- The database reports no error from now on, and every id drawn is new. -/
structure EventLog.Reliable (draws : Nat → EventDraw) (log : EventLog) : Prop where
  calm : ∀ tick, log.tick ≤ tick → (draws tick).fault = none
  fresh : ∀ tick, log.tick ≤ tick → (draws tick).id ∉ log.rows.map IntegrityEvent.id
  distinct : ∀ tick tick', log.tick ≤ tick → tick < tick' → (draws tick).id ≠ (draws tick').id

theorem EventLog.tried_of_reliable {draws : Nat → EventDraw} {log : EventLog} (h : log.Reliable draws)
    (insert : EventInsert) : ∃ event : IntegrityEvent, event.Records insert ∧
      log.tried draws insert = ⟨log.rows ++ [event], log.tick + 1⟩ ∧ (log.tried draws insert).Reliable draws := by
  have htried : log.tried draws insert = ⟨log.rows ++ [⟨(draws log.tick).id, insert.targetType, insert.targetId,
      insert.filePath, insert.eventType, insert.details, insert.detectedBy, 0, (draws log.tick).createdAt⟩],
      log.tick + 1⟩ := by
    simp only [EventLog.tried, eventHandler, h.calm log.tick (Nat.le_refl _)]
    rw [if_neg (h.fresh log.tick (Nat.le_refl _))]
  refine ⟨_, ⟨⟨rfl, rfl⟩, rfl, ⟨rfl, rfl⟩, rfl, rfl⟩, htried, ?_⟩
  rw [htried]
  have hearlier : ∀ tick, log.tick + 1 ≤ tick → log.tick ≤ tick := fun tick htick => by omega
  refine ⟨fun tick htick => h.calm tick (hearlier tick htick), fun tick htick => ?_,
    fun tick tick' htick hlt => h.distinct tick tick' (hearlier tick htick) hlt⟩
  rw [List.map_append, List.mem_append, not_or]
  refine ⟨h.fresh tick (hearlier tick htick), ?_⟩
  rw [List.map_singleton, List.mem_singleton]
  exact (h.distinct log.tick tick (Nat.le_refl _) htick).symm

theorem EventLog.foldl_tried {draws : Nat → EventDraw} (asked : List EventInsert) : ∀ {log : EventLog},
    log.Reliable draws → ∃ events : List IntegrityEvent, List.Forall₂ IntegrityEvent.Records events asked ∧
      (asked.foldl (EventLog.tried draws) log).rows = log.rows ++ events := by
  induction asked with
  | nil =>
      intro log _
      exact ⟨[], .nil, by simp⟩
  | cons insert asked ih =>
      intro log h
      obtain ⟨event, hevent, htried, hreliable⟩ := EventLog.tried_of_reliable h insert
      obtain ⟨events, hevents, hrows⟩ := ih hreliable
      refine ⟨event :: events, .cons hevent hevents, ?_⟩
      rw [List.foldl_cons, hrows, htried, List.append_assoc, List.singleton_append]

/-- What a scan ensures holds of its runs: the log has the insertions asked for tried on it, in their order. -/
theorem run_of_ask_ensures {oracle : Nat → Choice} (hquiet : QuietOracle oracle) (draws : Nat → EventDraw)
    {α : Type} {program : ScanProgram α} {disk : Disk} (log : EventLog)
    {Q : Except AppError α → FileTree × List EventInsert → Prop}
    (h : program.Ensures AskAccount (disk.tree, []) Q) :
    ∃ asked, Q (program.run (Program.sumHandler (fsHandler oracle) (eventHandler draws)) (disk, log)).1
        ((program.run (Program.sumHandler (fsHandler oracle) (eventHandler draws)) (disk, log)).2.1.tree, asked) ∧
      (program.run (Program.sumHandler (fsHandler oracle) (eventHandler draws)) (disk, log)).2.2 =
        asked.foldl (EventLog.tried draws) log := by
  have hstep : ∀ (op : scanSignature.Op) (s : Disk × EventLog) (v : FileTree × List EventInsert),
      (s.1.tree = v.1 ∧ s.2 = v.2.foldl (EventLog.tried draws) log) →
      ∃ v', AskAccount op v (Program.sumHandler (fsHandler oracle) (eventHandler draws) op s).1 v' ∧
        ((Program.sumHandler (fsHandler oracle) (eventHandler draws) op s).2.1.tree = v'.1 ∧
          (Program.sumHandler (fsHandler oracle) (eventHandler draws) op s).2.2 =
            v'.2.foldl (EventLog.tried draws) log) := by
    intro op s v h
    obtain ⟨htree, hlog⟩ := h
    cases op with
    | inl op =>
        exact ⟨((fsHandler oracle op s.1).2.tree, v.2), ⟨htree ▸ fsHandler_performs hquiet op s.1, rfl⟩, rfl, hlog⟩
    | inr insert =>
        refine ⟨(v.1, v.2 ++ [insert]), ⟨rfl, rfl⟩, htree, ?_⟩
        show s.2.tried draws insert = _
        rw [List.foldl_append, List.foldl_cons, List.foldl_nil, ← hlog]
  obtain ⟨v', ⟨htree, hlog⟩, hQ⟩ := Program.Ensures.run
    (R := fun (s : Disk × EventLog) v => s.1.tree = v.1 ∧ s.2 = v.2.foldl (EventLog.tried draws) log) h hstep
    (s := (disk, log)) ⟨rfl, rfl⟩
  refine ⟨v'.2, ?_, hlog⟩
  rw [htree]
  exact hQ

/-! ### Scans of user files -/

def UserTree.targetType : UserTree → String
  | .library _ => "library"
  | .space _ => "space"

def scanTree (P : Primitives) (config : AppConfig) (unlockState : UnlockState) (fuel : Nat) :
    UserTree → ScanProgram (Option ScanResult)
  | .library id => scanLibrary P config unlockState fuel id
  | .space id => scanSpace P config unlockState fuel id

theorem scanTree_eq (P : Primitives) (config : AppConfig) (unlockState : UnlockState) (fuel : Nat) (tree : UserTree) :
    scanTree P config unlockState fuel tree = scanDirectory P fuel tree.targetType tree.id (tree.root config)
      (tree.root config) (tree.key unlockState) := by
  cases tree <;> rfl

/-- The run of a scan. -/
def runScan (P : Primitives) (config : AppConfig) (unlockState : UnlockState) (oracle : Nat → Choice)
    (draws : Nat → EventDraw) (fuel : Nat) (tree : UserTree) (disk : Disk) (log : EventLog) :
    Except AppError (Option ScanResult) × Disk × EventLog :=
  (scanTree P config unlockState fuel tree).run (Program.sumHandler (fsHandler oracle) (eventHandler draws)) (disk, log)

/-- A scan of a library or a space tells exactly what is wrong. However the directories are listed, it ends; it has
looked at each visible file once, changed none, and asked for one report of each file that fails the check, under
its path below the root and as a mismatch exactly where the hash is wrong. The log has those insertions tried on it;
if the database takes them, each leaves one unacknowledged row. -/
theorem scan_reports_failures (P : Primitives) (config : AppConfig) (unlockState : UnlockState) (oracle : Nat → Choice)
    (hquiet : QuietOracle oracle) (draws : Nat → EventDraw) (tree : UserTree) (disk : Disk) (log : EventLog)
    (hfree : disk.tree.LinkFree) (place : Path) (hroot : disk.tree.canonicalize (tree.root config) = .ok place)
    (hdir : disk.tree.node place = some .dir) (fuel : Nat) (hfuel : (visibleDirs disk.tree place).length < fuel) :
    ∃ failing asked, failing.Perm (unsoundFiles P (tree.key unlockState) disk.tree (visibleBelow disk.tree place)) ∧
      List.Forall₂ (Reported P disk.tree place tree.targetType tree.id) failing asked ∧
      (runScan P config unlockState oracle draws fuel tree disk log).1 =
        .ok (some ⟨(visibleFiles disk.tree place).length % 2 ^ 64, failing.length % 2 ^ 64⟩) ∧
      (runScan P config unlockState oracle draws fuel tree disk log).2.1.tree = disk.tree ∧
      (runScan P config unlockState oracle draws fuel tree disk log).2.2 = asked.foldl (EventLog.tried draws) log ∧
      (log.Reliable draws → ∃ events, List.Forall₂ IntegrityEvent.Records events asked ∧
        (runScan P config unlockState oracle draws fuel tree disk log).2.2.rows = log.rows ++ events) := by
  have hensures := scanDirectory_reports P (tree.key unlockState) tree.targetType tree.id hfree
    (opensDir_of_canonicalize hroot hdir) hfuel
  rw [← scanTree_eq] at hensures
  obtain ⟨asked, ⟨⟨files, failures⟩, seen, hresult, hperm, hscanned⟩, hlog⟩ :=
    run_of_ask_ensures hquiet draws log hensures
  refine ⟨unsoundFiles P (tree.key unlockState) disk.tree seen, asked, hperm.filter _, hscanned.reports, ?_,
    hscanned.tree, hlog, fun hreliable => ?_⟩
  · have hfiles : files = scannedOf disk.tree seen := hscanned.files
    have hfailures : failures = asked.length % 2 ^ 64 := hscanned.failures
    rw [hscanned.reports.length_eq, ← hfailures]
    rw [scannedOf, (hperm.filter fun p => !isDirAt disk.tree p).length_eq] at hfiles
    rw [runScan, hresult, hfiles]
    rfl
  · rw [runScan, hlog]
    exact EventLog.foldl_tried asked hreliable

/-- Every identifier is longer than the one before. -/
def sampleDraws (tick : Nat) : EventDraw := ⟨String.ofList (List.replicate tick '1'), "2025-01-01 00:00:00", none⟩

theorem sampleDraws_reliable : (⟨[], 0⟩ : EventLog).Reliable sampleDraws where
  calm _ _ := rfl
  fresh _ _ := List.not_mem_nil
  distinct tick tick' _ hlt heq := by
    have hlength := congrArg (fun id => id.toList.length) heq
    simp only [sampleDraws, String.toList_ofList, List.length_replicate] at hlength
    omega

/-- The one file of the sample library is no encrypted file. -/
theorem scan_reports_failures_docs :
    ∃ insert : EventInsert, insert.filePath = "docs/a" ∧
      Reported plainPrimitives docsDisk.tree ["libraries", "l"] "library" "l" ["libraries", "l", "docs", "a"] insert ∧
      (runScan plainPrimitives sampleConfig sampleUnlocked calmOracle sampleDraws 2 (.library "l") docsDisk
        ⟨[], 0⟩).1 = .ok (some ⟨1, 1⟩) ∧
      ∃ event, IntegrityEvent.Records event insert ∧
        (runScan plainPrimitives sampleConfig sampleUnlocked calmOracle sampleDraws 2 (.library "l") docsDisk
          ⟨[], 0⟩).2.2.rows = [event] := by
  have hbelow : visibleBelow docsDisk.tree ["libraries", "l"] =
      [["libraries", "l", "docs"], ["libraries", "l", "docs", "a"]] := by decide +kernel
  have hfiles : visibleFiles docsDisk.tree ["libraries", "l"] = [["libraries", "l", "docs", "a"]] := by decide +kernel
  have hunsound : unsoundFiles plainPrimitives (some zeroKey) docsDisk.tree
      [["libraries", "l", "docs"], ["libraries", "l", "docs", "a"]] = [["libraries", "l", "docs", "a"]] := by
    have hdocs : ¬ Unsound plainPrimitives (some zeroKey) docsDisk.tree ["libraries", "l", "docs"] := by
      intro h
      obtain ⟨content, hnode, -⟩ := h
      have hdir : docsDisk.tree.node ["libraries", "l", "docs"] = some .dir := by decide
      rw [hdir] at hnode
      cases hnode
    have hfile : Unsound plainPrimitives (some zeroKey) docsDisk.tree ["libraries", "l", "docs", "a"] :=
      ⟨[1], by decide, fun hsound => absurd (hashOk_of_verifies hsound).1 (by decide)⟩
    simp [unsoundFiles, hdocs, hfile]
  obtain ⟨failing, asked, hperm, hreported, hresult, -, -, hrows⟩ := scan_reports_failures plainPrimitives sampleConfig
    sampleUnlocked calmOracle calmOracle_quiet sampleDraws (.library "l") docsDisk ⟨[], 0⟩ docsDisk_linkFree
    ["libraries", "l"] (by decide) (by decide) 2 (by decide +kernel)
  have hkey : (UserTree.library "l").key sampleUnlocked = some zeroKey := rfl
  rw [hbelow, hkey, hunsound] at hperm
  obtain rfl := List.perm_singleton.mp hperm
  obtain ⟨insert, hinsert, rfl⟩ : ∃ insert, Reported plainPrimitives docsDisk.tree ["libraries", "l"] "library" "l"
      ["libraries", "l", "docs", "a"] insert ∧ asked = [insert] := by
    cases hreported with
    | cons hfirst hrest =>
        cases hrest
        exact ⟨_, hfirst, rfl⟩
  obtain ⟨names, hnames, hpath⟩ := hinsert.path
  have hbelow : ["libraries", "l"] ++ ["docs", "a"] = ["libraries", "l"] ++ names := hnames
  obtain rfl := List.append_cancel_left hbelow
  obtain ⟨events, hevents, hlog⟩ := hrows sampleDraws_reliable
  refine ⟨insert, hpath.trans (by decide), hinsert, ?_, ?_⟩
  · rw [hresult, hfiles]
    rfl
  · cases hevents with
    | cons hevent hrest =>
        cases hrest
        exact ⟨_, hevent, hlog⟩

theorem verifies_of_readBytes {key : DataKey} {blob plaintext : Bytes} (h : readBytes P key blob = .ok plaintext) :
    Verifies P key blob := by
  unfold readBytes at h
  unfold Verifies
  by_cases hmagic : slice blob 0 3 = streamMagic
  · rw [if_pos hmagic] at h ⊢
    exact streamVerifies_of_read h
  · rw [if_neg hmagic] at h ⊢
    exact ⟨plaintext, h⟩

theorem sound_of_readBytes {key : DataKey} {blob plaintext : Bytes} (h : readBytes P key blob = .ok plaintext)
    {dataKey : Option DataKey} (hkey : ∀ k, dataKey = some k → k = key) : Sound P dataKey blob := by
  have hverifies := verifies_of_readBytes h
  cases dataKey with
  | none => exact hashOk_of_verifies hverifies
  | some k =>
      obtain rfl := hkey k rfl
      exact hverifies

/-- The visible files of a tree that stores a vault are the vault's values under names that are not hidden. -/
theorem Stores.mem_visibleFiles {key : DataKey} {root : Path} {w : Vault String Bytes} (h : Stores P key t root w)
    (hfree : t.LinkFree) {names : List String} :
    root ++ names ∈ visibleFiles t root ↔ ShownPath names ∧ ∃ content, w.item names = some (.value content) := by
  unfold visibleFiles
  rw [List.mem_filter, mem_visibleBelow]
  constructor
  · intro h
    obtain ⟨⟨hnode, names', hne, heq, hall⟩, hnot⟩ := h
    have hsame : names = names' := List.append_cancel_left heq
    have hshown : ShownPath names := fun name hname => by
      rw [isListed, hall name (hsame ▸ hname)]
      rfl
    refine ⟨hshown, ?_⟩
    cases hfound : t.node (root ++ names) with
    | none => exact absurd hfound hnode
    | some n =>
        cases n with
        | dir => simp [isDirAt, hfound] at hnot
        | file blob => exact h.node_file hshown hfound
        | symlink absolute target => exact absurd hfound (hfree _ _ _)
  · intro h
    obtain ⟨hshown, content, hitem⟩ := h
    obtain ⟨blob, hblob, -⟩ := h.node_value hshown hitem
    have hne : names ≠ [] := by
      intro hnil
      rw [hnil, w.root] at hitem
      cases hitem
    refine ⟨⟨by rw [hblob]; simp, names, hne, rfl, fun name hname => ?_⟩, by simp [isDirAt, hblob]⟩
    have hlisted := hshown name hname
    rwa [isListed, Bool.not_eq_true'] at hlisted

theorem Stores.unsoundFiles_eq {key : DataKey} {root : Path} {w : Vault String Bytes} (h : Stores P key t root w)
    {dataKey : Option DataKey} (hkey : ∀ k, dataKey = some k → k = key) :
    unsoundFiles P dataKey t (visibleBelow t root) = [] := by
  apply List.eq_nil_iff_forall_not_mem.mpr
  intro p hmem
  obtain ⟨hp, content, hfile, hnot⟩ := mem_unsoundFiles.mp hmem
  obtain ⟨-, names, -, rfl, hall⟩ := mem_visibleBelow.mp hp
  have hshown : ShownPath names := fun name hname => by
    rw [isListed, hall name hname]
    rfl
  obtain ⟨value, hvalue⟩ := h.node_file hshown hfile
  obtain ⟨blob, hblob, hread⟩ := h.node_value hshown hvalue
  rw [hfile] at hblob
  cases hblob
  exact hnot (sound_of_readBytes hread hkey)

/-- Whatever requests are made, a scan of any live tree afterwards finds every file in order, whether the tree is
unlocked or not: it looks at as many files as the vault shows values, and leaves the log of events as it was. -/
theorem requests_leave_nothing_to_report (P : Primitives) (hP : P.Lawful)
    (mimeFromFilename : String → Option String) (facts : EntryFacts) (config : AppConfig) (oracle : Nat → Choice)
    (hquiet : QuietOracle oracle) (keys : UserTree → DataKey) (live : UserTree → Prop)
    (hord : ∀ tree, live tree → ∀ name ∈ tree.root config, Ordinary name) (requests : List TreeRequest)
    (hfits : ∀ r ∈ requests, r.Fits keys live) (disk : Disk) (vaults : UserTree → Vault String Bytes)
    (h : StoresAll P config keys live disk.tree vaults) (tree : UserTree) (hlive : live tree)
    (unlockState : UnlockState) (hkey : ∀ key, tree.key unlockState = some key → key = keys tree)
    (draws : Nat → EventDraw) (log : EventLog) (fuel : Nat) :
    let served := (serveAll (serveRequest P mimeFromFilename facts config oracle) requests disk).2
    let vault := (serveAll answerRequest requests vaults).2 tree
    (visibleDirs served.tree (tree.root config)).length < fuel →
      (runScan P config unlockState oracle draws fuel tree served log).1 =
          .ok (some ⟨(visibleFiles served.tree (tree.root config)).length % 2 ^ 64, 0⟩) ∧
        (runScan P config unlockState oracle draws fuel tree served log).2.2 = log ∧
        ∀ names, tree.root config ++ names ∈ visibleFiles served.tree (tree.root config) ↔
          ShownPath names ∧ ∃ content, vault.item names = some (.value content) := by
  intro served vault hfuel
  obtain ⟨-, hstored⟩ := serveAll_refines mimeFromFilename facts hP hquiet hord hfits h
  have hstores := hstored.stores tree hlive
  obtain ⟨failing, asked, hperm, hreported, hresult, -, hlog, -⟩ := scan_reports_failures P config unlockState oracle
    hquiet draws tree served log hstored.linkFree (tree.root config) (hstores.canonicalize_root (hord tree hlive))
    hstores.root_dir fuel hfuel
  rw [hstores.unsoundFiles_eq hkey] at hperm
  have hnone := hperm.eq_nil
  subst hnone
  cases hreported
  exact ⟨hresult, hlog, fun names => hstores.mem_visibleFiles hstored.linkFree⟩

theorem requests_leave_nothing_to_report_upload :
    let served := (serveAll (serveRequest plainPrimitives (fun _ => none) plainFacts sampleConfig calmOracle)
      [uploadRequest, renameRequest] emptyLibrary).2
    (runScan plainPrimitives sampleConfig sampleUnlocked calmOracle sampleDraws 5 (.library "l") served ⟨[], 0⟩).1 =
        .ok (some ⟨(visibleFiles served.tree ["libraries", "l"]).length % 2 ^ 64, 0⟩) ∧
      (runScan plainPrimitives sampleConfig sampleUnlocked calmOracle sampleDraws 5 (.library "l") served
        ⟨[], 0⟩).2.2 = ⟨[], 0⟩ := by
  intro served
  have hscan := requests_leave_nothing_to_report plainPrimitives plainPrimitives_lawful (fun _ => none) plainFacts
    sampleConfig calmOracle calmOracle_quiet (fun _ => zeroKey) onlyLibrary onlyLibrary_ordinary
    [uploadRequest, renameRequest] sampleRequests_fit emptyLibrary _ emptyLibrary_stores (.library "l") rfl
    sampleUnlocked (fun key hkey => (Option.some.inj hkey).symm) sampleDraws ⟨[], 0⟩ 5 (by decide +kernel)
  exact ⟨hscan.1, hscan.2.1⟩

end IronDrive
