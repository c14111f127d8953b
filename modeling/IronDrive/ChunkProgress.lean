import Mathlib.Data.List.Perm.Subperm
import Mathlib.Logic.IsEmpty.Basic
import IronDrive.ChunkResend

/-! The progress of a session whose chunks arrive at the same time. A call creates its chunk file, lists the staging
directory and stores the number of chunk files it has seen, each in a step of its own, so the number stored last need
not be the one that was counted last. -/

namespace IronDrive

open Lib FileTree CryptoService FsService

namespace ChunkService

/-- The names of a complete listing. -/
def listed : Event serverSignature → Option (List String)
  | ⟨.inl (.readDir _), answer⟩ =>
      match (answer : Except IoError (List String × Option IoError)) with
      | .ok (names, none) => some names
      | _ => none
  | _ => none

/-- A chunk file was created. -/
def createsChunk : Event serverSignature → Bool
  | ⟨.inl (.createNew _), answer⟩ => (Except.toOption (answer : Except IoError Path)).isSome
  | _ => false

/-- The number stored in the row of a session. -/
def recorded (uploadId : String) : Event serverSignature → Option Int
  | ⟨.inr (.setReceived id n), answer⟩ =>
      match (answer : Except SqlError Unit) with
      | .ok () => if id = uploadId then some n else none
      | .error _ => none
  | _ => none

/-- The number of chunk files among the names of a listing. -/
def chunkFiles (names : List String) : Nat := (names.filter fun name => ".chunk".toList <:+ name.toList).length

variable {ι : Type} [DecidableEq ι]

/-- The calls of one caller. -/
def ownEvents (i : ι) (past : List (ι × Event serverSignature)) : List (Event serverSignature) :=
  (past.filter fun event => event.1 = i).map Prod.snd

/-- The names of the last complete listing. -/
def lastListing (events : List (Event serverSignature)) : Option (List String) := (events.filterMap listed).getLast?

/-- Who stored a number last, and which. -/
def lastRecord (uploadId : String) (past : List (ι × Event serverSignature)) : Option (ι × Int) :=
  (past.filterMap fun event => (recorded uploadId event.2).map (Prod.mk event.1)).getLast?

/-- The calls made since a caller's last complete listing, the latest first. -/
def sinceListing (i : ι) (past : List (ι × Event serverSignature)) : List (ι × Event serverSignature) :=
  past.reverse.takeWhile fun event => !(event.1 = i && (listed event.2).isSome)

/-- Whoever stored the last number had listed the directory, after the last chunk file was created. -/
def CountedLast (uploadId : String) (past : List (ι × Event serverSignature)) : Prop :=
  ∀ i n, lastRecord uploadId past = some (i, n) → (lastListing (ownEvents i past)).isSome ∧
    ∀ event ∈ sinceListing i past, createsChunk event.2 = false

section Snoc

variable {i j : ι} {past : List (ι × Event serverSignature)} {event : Event serverSignature}

theorem ownEvents_snoc : ownEvents i (past ++ [(j, event)]) =
    if j = i then ownEvents i past ++ [event] else ownEvents i past := by
  by_cases hij : j = i <;> simp [ownEvents, hij]

theorem lastListing_snoc (events : List (Event serverSignature)) :
    lastListing (events ++ [event]) = (listed event).or (lastListing events) := by
  cases hlisted : listed event <;> simp [lastListing, hlisted]

theorem sinceListing_snoc : sinceListing i (past ++ [(j, event)]) =
    if j = i ∧ (listed event).isSome then [] else (j, event) :: sinceListing i past := by
  simp only [sinceListing, List.reverse_append, List.reverse_singleton, List.singleton_append]
  by_cases hlisting : j = i ∧ (listed event).isSome
  · rw [if_pos hlisting, List.takeWhile_cons_of_neg]
    simp [hlisting]
  · rw [if_neg hlisting, List.takeWhile_cons_of_pos]
    rcases not_and_or.mp hlisting with hij | hnone
    · simp [hij]
    · simp [hnone]

omit [DecidableEq ι] in
theorem lastRecord_snoc {uploadId : String} : lastRecord uploadId (past ++ [(j, event)]) =
    ((recorded uploadId event).map (Prod.mk j)).or (lastRecord uploadId past) := by
  cases hrecorded : recorded uploadId event <;> simp [lastRecord, hrecorded]

end Snoc

/-- The directory of a session: there, and with nothing in it but chunk files of the session's indexes. -/
structure ChunkDir (config : AppConfig) (row : ChunkedUpload) (t : FileTree) : Prop where
  resolved : t.Resolved (stagingDir config row.id)
  dir : t.node (stagingDir config row.id) = some .dir
  named : ∀ name ∈ t.children (stagingDir config row.id), ∃ i < toU32 row.totalChunks, name = chunkName i

/-- The number of chunk files of a session. -/
def chunkCount (config : AppConfig) (row : ChunkedUpload) (t : FileTree) : Nat :=
  chunkFiles (t.children (stagingDir config row.id))

/-- The row of a session shows the number of its chunk files. -/
def ShowsProgress (config : AppConfig) (row : ChunkedUpload) (server : Server) : Prop :=
  ∀ r ∈ server.2.rows, r.id = row.id → r.receivedChunks = chunkCount config row server.1.tree

variable {crates : Crates} {config : AppConfig} {row : ChunkedUpload} {oracle : Nat → Choice}
  {dbOracle : Nat → Option String} {t : FileTree}

theorem chunkFiles_snoc (names : List String) (i : Nat) :
    chunkFiles (names ++ [chunkName i]) = chunkFiles names + 1 := by
  have hsuffix : ".chunk".toList <:+ (chunkName i).toList := by
    unfold chunkName
    simp only [String.toList_ofList]
    exact ⟨_, rfl⟩
  have hlast : [chunkName i].filter (fun name => ".chunk".toList <:+ name.toList) = [chunkName i] := by
    rw [List.filter_eq_self]
    intro name hname
    rw [List.mem_singleton.mp hname]
    exact decide_eq_true hsuffix
  rw [chunkFiles, List.filter_append, hlast, List.length_append]
  rfl

/-- A session has no more chunk files than indexes. -/
theorem ChunkDir.count_le (h : ChunkDir config row t) : chunkCount config row t ≤ toU32 row.totalChunks := by
  have hsubset : t.children (stagingDir config row.id) ⊆ (List.range (toU32 row.totalChunks)).map chunkName := by
    intro name hname
    obtain ⟨i, hi, rfl⟩ := h.named name hname
    exact List.mem_map.mpr ⟨i, List.mem_range.mpr hi, rfl⟩
  calc chunkCount config row t
      ≤ (t.children (stagingDir config row.id)).length := List.length_filter_le _ _
    _ ≤ ((List.range (toU32 row.totalChunks)).map chunkName).length :=
        ((t.nodup_children _).subperm hsubset).length_le
    _ = toU32 row.totalChunks := by rw [List.length_map, List.length_range]

/-- The calls that `receiveChunk` makes. -/
def Receives (config : AppConfig) (uploadId : String) (i : Nat) : serverSignature.Op → Prop
  | .inl (.createDirAll path) | .inl (.readDir path) => path = stagingDir config uploadId
  | .inl (.createNew path) => path = chunkPath config uploadId i
  | .inl (.removeDirAll _) | .inl (.create _) => False
  | .inr (.insert _) | .inr (.delete _) => False
  | .inr (.setReceived id _) => id = uploadId
  | _ => True

/-- A call moves the directory by the file it creates, if it creates one. -/
theorem ChunkDir.step (h : ChunkDir config row t) (choice : Choice) {i : Nat} (hi : i < toU32 row.totalChunks)
    {op : FsCall} (hop : Receives config row.id i (.inl op)) :
    ChunkDir config row (op.perform choice t).2 ∧
      chunkCount config row (op.perform choice t).2 = chunkCount config row t +
        if createsChunk ⟨.inl op, (op.perform choice t).1⟩ then 1 else 0 := by
  by_cases hread : op.ReadOnly
  · rw [perform_readOnly hread]
    refine ⟨h, ?_⟩
    cases op <;> first | rfl | exact absurd hread id
  cases op with
  | removeDirAll path | create path => exact absurd hop id
  | createDirAll path =>
      obtain rfl : path = stagingDir config row.id := hop
      have hmade := createDirs_take_of_dir h.resolved h.dir choice.amount
      have hfull := createDirs_of_dir h.resolved h.dir
      cases hfault : choice.fault with
      | some message =>
          simp only [FsCall.perform, hfault, hmade]
          exact ⟨h, rfl⟩
      | none =>
          simp only [FsCall.perform, hfault, hfull]
          exact ⟨h, rfl⟩
  | createNew path =>
      obtain rfl : path = chunkPath config row.id i := hop
      have hplace : t.createNewPlace (chunkPath config row.id i) = _ :=
        createNewPlace_snoc h.resolved h.dir (chunkName i)
      cases hfault : choice.fault with
      | some message =>
          simp only [FsCall.perform, Choice.guard, hfault]
          exact ⟨h, rfl⟩
      | none =>
          simp only [FsCall.perform, Choice.guard, hfault, hplace]
          by_cases hnew : t.node (stagingDir config row.id ++ [chunkName i]) = none
          · rw [if_pos hnew]
            simp only [Except.mapError]
            have hadmits : t.Admits (stagingDir config row.id ++ [chunkName i]) :=
              ⟨by simp, by rw [List.dropLast_concat]; exact h.dir, by simp [hnew]⟩
            have hext : t.Extends (t.put (stagingDir config row.id ++ [chunkName i]) (.file [])) :=
              extends_put_file (by simp [hnew]) []
            have hchildren := children_put_new hadmits hnew (.file [])
            refine ⟨⟨hext.resolved h.resolved, hext.dir _ h.dir, ?_⟩, ?_⟩
            · intro name hname
              rw [hchildren] at hname
              rcases List.mem_append.mp hname with hold | hlast
              · exact h.named name hold
              · exact ⟨i, hi, List.mem_singleton.mp hlast⟩
            · rw [chunkCount, hchildren, chunkFiles_snoc]
              rfl
          · rw [if_neg hnew]
            exact ⟨h, rfl⟩
  | writeAll place offset data =>
      simp only [FsCall.perform]
      cases hplace : t.node place with
      | none => exact ⟨h, rfl⟩
      | some n =>
          cases n with
          | dir | symlink => exact ⟨h, rfl⟩
          | file content =>
              dsimp only
              generalize writeAt content offset _ = written
              have hext : t.Extends (t.put place (.file written)) := extends_put_file (by simp [hplace]) written
              have hchildren : (t.put place (.file written)).children (stagingDir config row.id) = _ :=
                children_put_old (by rw [hplace]; simp) _ _
              refine ⟨⟨hext.resolved h.resolved, hext.dir _ h.dir, ?_⟩, ?_⟩
              · rw [hchildren]
                exact h.named
              · rw [chunkCount, hchildren]
                rfl
  | _ => exact absurd trivial hread

/-- Every caller that has listed the directory has seen the chunk files that are there now, but for those created
since. -/
def Seen (past : List (ι × Event serverSignature)) (count : Nat) : Prop :=
  ∀ i names, lastListing (ownEvents i past) = some names →
    chunkFiles names + (sinceListing i past).countP (fun event => createsChunk event.2) = count

theorem Seen.snoc {past : List (ι × Event serverSignature)} {n m : Nat} (h : Seen past n) (j : ι)
    {event : Event serverSignature} (hm : m = n + if createsChunk event then 1 else 0)
    (hlisted : ∀ names, listed event = some names → chunkFiles names = m ∧ createsChunk event = false) :
    Seen (past ++ [(j, event)]) m := by
  intro i names hnames
  rw [ownEvents_snoc] at hnames
  rw [sinceListing_snoc]
  cases hlisting : listed event with
  | none =>
      have hold : lastListing (ownEvents i past) = some names := by
        by_cases hij : j = i
        · rwa [if_pos hij, lastListing_snoc, hlisting, Option.none_or] at hnames
        · rwa [if_neg hij] at hnames
      have hseen := h i names hold
      rw [if_neg (by simp), List.countP_cons]
      dsimp only
      omega
  | some found =>
      obtain ⟨hfound, hcreates⟩ := hlisted found hlisting
      by_cases hij : j = i
      · rw [if_pos hij, lastListing_snoc, hlisting, Option.some_or] at hnames
        cases hnames
        rw [if_pos (by simp [hij])]
        exact hfound
      · rw [if_neg hij] at hnames
        have hseen := h i names hnames
        rw [if_neg (by simp [hij]), List.countP_cons]
        simp only [hcreates, Bool.false_eq_true, if_false] at hm ⊢
        omega

/-- What is known of the session after the calls so far. -/
structure Counted (config : AppConfig) (row : ChunkedUpload) (initial : Int) (server : Server)
    (past : List (ι × Event serverSignature)) : Prop where
  chunks : ChunkDir config row server.1.tree
  seen : Seen past (chunkCount config row server.1.tree)
  stored : ∀ r ∈ server.2.rows, r.id = row.id →
    r.receivedChunks = ((lastRecord row.id past).map Prod.snd).getD initial
  kept : ∃ r ∈ server.2.rows, r.id = row.id
  created : past.countP (fun event => createsChunk event.2) ≤ chunkCount config row server.1.tree

theorem listed_of_perform {choice : Choice} {op : FsCall} (h : ChunkDir config row t) {i : Nat}
    (hop : Receives config row.id i (.inl op)) {names : List String}
    (hlisted : listed ⟨.inl op, (op.perform choice t).1⟩ = some names) :
    names = t.children (stagingDir config row.id) ∧ (op.perform choice t).2 = t ∧
      createsChunk ⟨.inl op, (op.perform choice t).1⟩ = false := by
  cases op with
  | readDir path =>
      obtain rfl : path = stagingDir config row.id := hop
      have hnames : FsCall.listDir t (stagingDir config row.id) = .ok (t.children (stagingDir config row.id)) := by
        simp [FsCall.listDir, locate_of_resolved h.resolved, h.dir, bind, Except.bind, pure, Except.pure]
      have hread : FsCall.ReadOnly (.readDir (stagingDir config row.id)) := trivial
      refine ⟨?_, perform_readOnly hread choice t, rfl⟩
      cases hfault : choice.fault with
      | some message =>
          by_cases hamount : choice.amount = 0
          · simp only [listed, FsCall.perform, hnames, hfault, hamount] at hlisted
            cases hlisted
          · simp only [listed, FsCall.perform, hnames, hfault, hamount] at hlisted
            cases hlisted
      | none =>
          simp only [listed, FsCall.perform, hnames, hfault] at hlisted
          cases hlisted
          rfl
  | _ => cases hlisted

theorem Counted.step {past : List (ι × Event serverSignature)} {server : Server} {initial : Int} (j : ι)
    {op : serverSignature.Op} {i : Nat} (hi : i < toU32 row.totalChunks) (hop : Receives config row.id i op)
    (h : Counted config row initial server past) :
    Counted config row initial (serverHandler oracle dbOracle op server).2
      (past ++ [(j, ⟨op, (serverHandler oracle dbOracle op server).1⟩)]) := by
  cases op with
  | inl op =>
      obtain ⟨hchunks, hcount⟩ := h.chunks.step (oracle server.1.tick) hi hop
      refine ⟨hchunks, h.seen.snoc j hcount fun names hnames => ?_, ?_, h.kept, ?_⟩
      · obtain ⟨rfl, htree, hcreates⟩ := listed_of_perform h.chunks hop hnames
        exact ⟨congrArg (chunkCount config row) htree.symm, hcreates⟩
      · intro r hr hid
        rw [lastRecord_snoc]
        exact h.stored r hr hid
      · have hcreated := h.created
        simp only [List.countP_append, List.countP_singleton]
        exact hcount ▸ Nat.add_le_add_right hcreated _
  | inr op =>
      have hcreated : List.countP (fun event : ι × Event serverSignature => createsChunk event.2)
          (past ++ [(j, ⟨.inr op, (serverHandler oracle dbOracle (.inr op) server).1⟩)]) ≤
            chunkCount config row server.1.tree := by
        rw [List.countP_append]
        exact h.created
      have hseen : Seen (past ++ [(j, ⟨.inr op, (serverHandler oracle dbOracle (.inr op) server).1⟩)])
          (chunkCount config row server.1.tree) := h.seen.snoc j rfl nofun
      cases op with
      | insert newRow | delete uploadId => exact hop.elim
      | load id targetType =>
          refine ⟨h.chunks, hseen, fun r hr hid => ?_, h.kept, hcreated⟩
          rw [lastRecord_snoc]
          exact h.stored r hr hid
      | setReceived id n =>
          obtain rfl : id = row.id := hop
          cases hfault : dbOracle server.2.tick with
          | some message =>
              simp only [serverHandler, Program.sumHandler, uploadsHandler, UploadsCall.perform, hfault]
                at hseen hcreated ⊢
              refine ⟨h.chunks, hseen, fun r hr hid => ?_, h.kept, hcreated⟩
              rw [lastRecord_snoc]
              exact h.stored r hr hid
          | none =>
              simp only [serverHandler, Program.sumHandler, uploadsHandler, UploadsCall.perform, hfault]
                at hseen hcreated ⊢
              refine ⟨h.chunks, hseen, fun r hr hid => ?_, ?_, hcreated⟩
              · rw [lastRecord_snoc]
                obtain ⟨old, hold, rfl⟩ := List.mem_map.mp hr
                by_cases hsame : old.id = row.id
                · simp [recorded, hsame]
                · rw [if_neg hsame] at hid
                  exact absurd hid hsame
              · obtain ⟨r, hr, hid⟩ := h.kept
                exact ⟨_, List.mem_map_of_mem hr, by rw [if_pos hid]; exact hid⟩

/-- The calls that fill a chunk file. -/
def Fills : FsCall → Prop
  | .writeAll _ _ _ | .flush _ | .syncData _ => True
  | _ => False

theorem fillChunk_fills (place : Path) (data : Bytes) : (fillChunk place data).Only Fills fun _ => True := by
  refine (writeBuffered_only (fun _ _ => trivial) data _).bind fun written _ => ?_
  refine ((attempt_only _ written.2).bind fun _ _ => fsCall_attempt_only (.flush written.1.place) trivial _ id).bind
    fun _ _ => ?_
  exact fsCall_attempt_only (.syncData written.1.place) trivial _ id

/-- The calls of `receiveChunk`, whatever is answered. -/
theorem receiveChunk_only (now : Int) (session : Session) (i : Nat) (data : Bytes) :
    (receiveChunk crates config now session i data).Only (Receives config session.uploadId i) fun _ => True := by
  have hloads : (requireSession crates now session).Only (Receives config session.uploadId i) fun _ => True := by
    refine (requireSession_loads now session).mono (fun op hop => ?_) fun _ => id
    cases op with
    | inl op => exact hop.elim
    | inr op =>
        cases op with
        | load _ _ => trivial
        | insert _ | setReceived _ _ | delete _ => exact hop.elim
  have honDisk : ∀ {α : Type} {R : α → Prop} {program : FsProgram α},
      program.Only (fun op => Receives config session.uploadId i (.inl op)) R →
        (onDisk program).Only (Receives config session.uploadId i) R := by
    intro α R program h
    refine (Program.Only.inl (N := fun _ => False) h).mono (fun op hop => ?_) fun _ => id
    cases op with
    | inl op => exact hop
    | inr op => exact hop.elim
  refine hloads.bind fun row _ => ?_
  dsimp only
  split
  · trivial
  split
  · trivial
  have hstage : (stageChunk config session.uploadId i data).Only
      (fun op => Receives config session.uploadId i (.inl op)) fun _ => True := by
    refine (fsCall_attempt_only (N := fun op => Receives config session.uploadId i (.inl op)) (.createDirAll _) rfl _
      id).bind fun _ _ => ?_
    refine (fsCall_only (N := fun op => Receives config session.uploadId i (.inl op)) (.createNew _) rfl).bind
      fun answer _ => ?_
    cases answer with
    | error e =>
        dsimp only
        split_ifs <;> trivial
    | ok place =>
        refine (fillChunk_fills place data).mono (fun op hop => ?_) fun _ => id
        cases op with
        | writeAll _ _ _ | flush _ | syncData _ => trivial
        | _ => exact hop.elim
  have hcount : (countUploadedChunks config session.uploadId).Only
      (fun op => Receives config session.uploadId i (.inl op)) fun _ => True := by
    refine (fsCall_only (.tryExists _) trivial).bind fun found _ => ?_
    dsimp only
    split_ifs
    · trivial
    · refine (fsCall_only (N := fun op => Receives config session.uploadId i (.inl op)) (.readDir _) rfl).bind
        fun listing _ => (attempt_only _ listing).bind ?_
      rintro ⟨names, failure⟩ -
      cases failure <;> trivial
  refine (honDisk hstage).bind fun _ _ => (honDisk hcount).bind fun received _ => ⟨rfl, fun answer => ?_⟩
  cases answer <;> trivial

/-- A call that neither lists a directory nor stores a number. -/
def Silent (uploadId : String) (event : Event serverSignature) : Prop :=
  listed event = none ∧ recorded uploadId event = none

/-- What is known of the answers: a row found under the id of the session has its number of chunks. -/
def Finds (row : ChunkedUpload) : (op : serverSignature.Op) → Unit → serverSignature.Answer op → Unit → Prop
  | .inr (.load id _), _, answer, _ => ∀ r, (answer : Except SqlError (Option ChunkedUpload)) = .ok (some r) →
      id = row.id → r.totalChunks = row.totalChunks
  | _, _, _, _ => True

/-- The log of a call that is accepted: the chunk file was created, and the number stored is that of the chunk files
listed before, or zero if the directory was not listed. -/
structure Accepted (row : ChunkedUpload) (i : Nat) (log : List (Event serverSignature)) : Prop where
  inRange : i < toU32 row.totalChunks
  creates : ∃ event ∈ log, createsChunk event = true
  records : ∃ event ∈ log, (recorded row.id event).isSome
  counts : ∀ event ∈ log, ∀ n, recorded row.id event = some n →
    n = (min (((lastListing log).map chunkFiles).getD 0) (2 ^ 32 - 1) : Nat)

variable {session : Session} {log : List (Event serverSignature)}

theorem Silent.snoc {uploadId : String} (h : ∀ event ∈ log, Silent uploadId event) (event : Event serverSignature)
    (hevent : Silent uploadId event) : ∀ found ∈ log ++ [event], Silent uploadId found := by
  intro found hfound
  rcases List.mem_append.mp hfound with hold | hlast
  · exact h found hold
  · cases List.mem_singleton.mp hlast
    exact hevent

theorem requireSession_logged (hid : session.uploadId = row.id) (now : Int) :
    (requireSession crates now session).Ensures (Program.Logged (Finds row)) ((), []) fun result v =>
      (∀ event ∈ v.2, Silent row.id event) ∧ ∀ found, result = .ok found → found.totalChunks = row.totalChunks := by
  unfold requireSession
  refine Program.ensures_ofExcept_bind (fun _ _ => ?_) fun error _ => ⟨nofun, nofun⟩
  intro answer v h
  obtain ⟨hfinds, hlog⟩ := h
  have hsilent : ∀ event ∈ v.2, Silent row.id event := by
    intro event hevent
    rw [hlog] at hevent
    rw [List.mem_singleton.mp hevent]
    exact ⟨rfl, rfl⟩
  cases answer with
  | error e => exact ⟨hsilent, nofun⟩
  | ok found =>
      cases found with
      | none => exact ⟨hsilent, nofun⟩
      | some found =>
          have htotal := hfinds found rfl hid
          show (if found.userId ≠ session.userId ∨ found.targetId ≠ session.targetId then Program.fail .notFound
            else if isExpired crates now found.expiresAt then
              Program.fail (.validation "Upload session has expired.")
            else Program.done found : ServerProgram ChunkedUpload).Ensures _ _ _
          split
          · exact ⟨hsilent, nofun⟩
          split
          · exact ⟨hsilent, nofun⟩
          refine ⟨hsilent, fun value hvalue => ?_⟩
          cases hvalue
          exact htotal

theorem stageChunk_logged (hlog : ∀ event ∈ log, Silent row.id event) (i : Nat) (data : Bytes) :
    (onDisk (stageChunk config session.uploadId i data)).Ensures (Program.Logged (Finds row)) ((), log) fun result v =>
      (∀ event ∈ v.2, Silent row.id event) ∧
        ∀ u, result = .ok u → ∃ event ∈ v.2, createsChunk event = true := by
  rintro answer ⟨⟨⟩, log₁⟩ ⟨-, rfl⟩
  have hlog₁ := Silent.snoc hlog ⟨.inl (.createDirAll _), answer⟩ ⟨rfl, rfl⟩
  cases answer with
  | error e => exact ⟨hlog₁, nofun⟩
  | ok u =>
      rintro answer ⟨⟨⟩, log₂⟩ ⟨-, rfl⟩
      have hlog₂ := Silent.snoc hlog₁ ⟨.inl (.createNew _), answer⟩ ⟨rfl, rfl⟩
      cases answer with
      | error e =>
          show ((if e.kind = .alreadyExists then Program.fail (.conflict "Chunk already uploaded.")
            else Program.fail (.internal ("Failed to create chunk file: " ++ e.message)) :
              FsProgram Unit).inl : ServerProgram Unit).Ensures _ _ _
          split <;> exact ⟨hlog₂, nofun⟩
      | ok place =>
          have hfills := Program.Only.ensures_logged (H := Finds row)
            (Program.Only.inl (N := fun _ => False) (fillChunk_fills place data)) ()
            (log ++ [⟨.inl (.createDirAll (stagingDir config session.uploadId)), .ok u⟩] ++
              [⟨.inl (.createNew (chunkPath config session.uploadId i)), .ok place⟩])
          refine Program.Ensures.mono hfills ?_
          rintro result ⟨⟨⟩, log₃⟩ ⟨more, rfl, hmore⟩
          refine ⟨fun event hevent => ?_, fun _ _ => ?_⟩
          · rcases List.mem_append.mp hevent with hold | hlater
            · exact hlog₂ event hold
            · have hop := hmore event hlater
              obtain ⟨op | op, answer⟩ := event
              · cases op with
                | writeAll _ _ _ | flush _ | syncData _ => exact ⟨rfl, rfl⟩
                | _ => exact hop.elim
              · exact hop.elim
          · exact ⟨⟨.inl (.createNew (chunkPath config session.uploadId i)), .ok place⟩, by simp, rfl⟩

theorem lastListing_silent {uploadId : String} (h : ∀ event ∈ log, Silent uploadId event) : lastListing log = none := by
  have hnone : log.filterMap listed = [] := List.filterMap_eq_nil_iff.mpr fun event hevent => (h event hevent).1
  rw [lastListing, hnone]
  rfl

theorem countUploadedChunks_logged (hlog : ∀ event ∈ log, Silent row.id event) :
    (onDisk (countUploadedChunks config session.uploadId)).Ensures (Program.Logged (Finds row)) ((), log)
      fun result v => log ⊆ v.2 ∧ (∀ event ∈ v.2, recorded row.id event = none) ∧
        ∀ n, result = .ok n → n = min (((lastListing v.2).map chunkFiles).getD 0) (2 ^ 32 - 1) := by
  rintro found ⟨⟨⟩, log₁⟩ ⟨-, rfl⟩
  have hlog₁ := Silent.snoc hlog ⟨.inl (.tryExists (stagingDir config session.uploadId)), found⟩ ⟨rfl, rfl⟩
  have hsub := List.subset_append_left log [⟨.inl (.tryExists (stagingDir config session.uploadId)), found⟩]
  have hmissing : ∀ n : Nat, (.ok 0 : Except AppError Nat) = .ok n → n = min (((lastListing (log ++
      [⟨.inl (.tryExists (stagingDir config session.uploadId)), found⟩])).map chunkFiles).getD 0) (2 ^ 32 - 1) := by
    intro n hn
    cases hn
    rw [lastListing_silent hlog₁]
    rfl
  cases found with
  | error e => exact ⟨hsub, fun event hevent => (hlog₁ event hevent).2, hmissing⟩
  | ok found =>
      cases found with
      | false => exact ⟨hsub, fun event hevent => (hlog₁ event hevent).2, hmissing⟩
      | true =>
          rintro listing ⟨⟨⟩, log₂⟩ ⟨-, rfl⟩
          have hsub₂ := List.Subset.trans hsub (List.subset_append_left _
            [⟨.inl (.readDir (stagingDir config session.uploadId)), listing⟩])
          have hrecorded : ∀ event ∈ log ++ [⟨.inl (.tryExists (stagingDir config session.uploadId)), .ok true⟩] ++
              [⟨.inl (.readDir (stagingDir config session.uploadId)), listing⟩], recorded row.id event = none := by
            intro event hevent
            rcases List.mem_append.mp hevent with hold | hlast
            · exact (hlog₁ event hold).2
            · cases List.mem_singleton.mp hlast
              rfl
          cases listing with
          | error e => exact ⟨hsub₂, hrecorded, nofun⟩
          | ok listing =>
              obtain ⟨names, failure⟩ := listing
              cases failure with
              | some e => exact ⟨hsub₂, hrecorded, nofun⟩
              | none =>
                  refine ⟨hsub₂, hrecorded, fun n hn => ?_⟩
                  cases hn
                  rw [lastListing_snoc]
                  rfl

/-- A call that returns `Ok` leaves the log of an accepted chunk. -/
theorem receiveChunk_logged (hid : session.uploadId = row.id) (now : Int) (i : Nat) (data : Bytes) :
    (receiveChunk crates config now session i data).Ensures (Program.Logged (Finds row)) ((), []) fun result v =>
      ∀ value, result = .ok value → Accepted row i v.2 := by
  refine Program.Ensures.bind (requireSession_logged hid now) ?_ nofun
  rintro found ⟨⟨⟩, log⟩ ⟨hlog, hfound⟩
  have htotal := hfound found rfl
  dsimp only at hlog ⊢
  rw [htotal]
  split_ifs with hrange hlen
  · exact nofun
  · exact nofun
  refine Program.Ensures.bind (stageChunk_logged hlog i data) ?_ nofun
  rintro u ⟨⟨⟩, log₁⟩ ⟨hlog₁, hstaged⟩
  obtain ⟨creation, hmem, hcreates⟩ := hstaged u rfl
  refine Program.Ensures.bind (countUploadedChunks_logged hlog₁) ?_ nofun
  rintro n ⟨⟨⟩, log₂⟩ ⟨hsub, hrecorded, hcount⟩
  rintro answer ⟨⟨⟩, log₃⟩ ⟨-, rfl⟩
  cases answer with
  | error e => exact nofun
  | ok stored =>
      rintro value -
      have hlast : recorded row.id ⟨.inr (.setReceived session.uploadId n), .ok stored⟩ = some (n : Int) := by
        simp [recorded, hid]
      refine ⟨Nat.not_le.mp hrange, ⟨creation, List.mem_append_left _ (hsub hmem), hcreates⟩,
        ⟨_, List.mem_append_right _ (List.mem_singleton_self _), by rw [hlast]; rfl⟩, fun event hevent m hm => ?_⟩
      rw [lastListing_snoc]
      rcases List.mem_append.mp hevent with hold | hnew
      · rw [hrecorded event hold] at hm
        cases hm
      · cases List.mem_singleton.mp hnew
        rw [hlast] at hm
        cases hm
        exact congrArg Nat.cast (hcount n rfl)

/-! ### All calls together -/

/-- The calls of several callers. -/
def receiving (crates : Crates) (config : AppConfig) (calls : ι → ReceiveCall) (i : ι) :
    ServerProgram ReceiveChunkResult :=
  receiveChunk crates config (calls i).now (calls i).session (calls i).chunkIndex (calls i).data

/-- The rows of the session have its number of chunks. -/
def KeepsTotal (row : ChunkedUpload) (server : Server) : Prop :=
  ∀ r ∈ server.2.rows, r.id = row.id → r.totalChunks = row.totalChunks

variable {server : Server} {calls : ι → ReceiveCall}

omit [DecidableEq ι] in
theorem receiving_only (hids : ∀ i, (calls i).session.uploadId = row.id) (i : ι) :
    (receiving crates config calls i).Only (Receives config row.id (calls i).chunkIndex) fun _ => True := by
  rw [← hids i]
  exact receiveChunk_only _ _ _ _

theorem KeepsTotal.step (oracle : Nat → Choice) (dbOracle : Nat → Option String) (h : KeepsTotal row server)
    {op : serverSignature.Op} {i : Nat} (hop : Receives config row.id i op) :
    Finds row op () (serverHandler oracle dbOracle op server).1 () ∧
      KeepsTotal row (serverHandler oracle dbOracle op server).2 := by
  cases op with
  | inl op => exact ⟨trivial, h⟩
  | inr op =>
      cases op with
      | insert newRow | delete uploadId => exact hop.elim
      | load id targetType =>
          refine ⟨fun r hr hid => ?_, h⟩
          cases hfault : dbOracle server.2.tick with
          | some message =>
              simp only [serverHandler, Program.sumHandler, uploadsHandler, UploadsCall.perform, hfault] at hr
              cases hr
          | none =>
              simp only [serverHandler, Program.sumHandler, uploadsHandler, UploadsCall.perform, hfault] at hr
              have hfound : server.2.rows.find? (fun r => r.id = id && r.targetType = targetType) = some r :=
                Except.ok.inj hr
              have hmatch := List.find?_some hfound
              simp only [Bool.and_eq_true, decide_eq_true_eq] at hmatch
              exact h r (List.mem_of_find?_eq_some hfound) (hmatch.1.trans hid)
      | setReceived id n =>
          refine ⟨trivial, fun r hr hid => ?_⟩
          cases hfault : dbOracle server.2.tick with
          | some message =>
              simp only [serverHandler, Program.sumHandler, uploadsHandler, UploadsCall.perform, hfault] at hr
              exact h r hr hid
          | none =>
              simp only [serverHandler, Program.sumHandler, uploadsHandler, UploadsCall.perform, hfault] at hr
              obtain ⟨old, hold, rfl⟩ := List.mem_map.mp hr
              split_ifs at hid ⊢ <;> exact h old hold hid

/-- Whoever returned `Ok` left the log of an accepted chunk in the trace. -/
theorem accepted_of_done (hids : ∀ i, (calls i).session.uploadId = row.id) (htotal : KeepsTotal row server)
    (schedule : List ι) {i : ι} {value : ReceiveChunkResult}
    (hdone : (Pool.run (serverHandler oracle dbOracle) schedule (receiving crates config calls) server).1 i =
      .done value) :
    Accepted row (calls i).chunkIndex
      (ownEvents i (Pool.trace (serverHandler oracle dbOracle) schedule (receiving crates config calls) server)) := by
  have honly : ∀ i, (receiving crates config calls i).Only (fun op => ∃ k, Receives config row.id k op)
      fun _ => True := fun i => (receiving_only hids i).mono (fun op hop => ⟨_, hop⟩) fun _ => id
  obtain ⟨⟨⟨⟩, log⟩, hlog, -, hown⟩ := Pool.ensures_run (i := i)
    (R := fun server past v => KeepsTotal row server ∧ v.2 = ownEvents i past)
    (F := fun _ event => ∃ k, Receives config row.id k event.1) (H := Program.Logged (Finds row))
    (h := serverHandler oracle dbOracle)
    (by
      rintro op server past ⟨⟨⟩, log⟩ ⟨k, hop⟩ ⟨hkeeps, rfl⟩
      obtain ⟨hfinds, hkeeps'⟩ := hkeeps.step oracle dbOracle hop
      refine ⟨((), _), ⟨hfinds, rfl⟩, hkeeps', ?_⟩
      rw [ownEvents_snoc, if_pos rfl])
    (by
      rintro j op server past ⟨⟨⟩, log⟩ hij ⟨k, hop⟩ ⟨hkeeps, rfl⟩
      refine ⟨(hkeeps.step _ _ hop).2, ?_⟩
      rw [ownEvents_snoc, if_neg hij])
    schedule (receiving crates config calls) server [] ((), [])
    (Pool.trace_only schedule _ _ honly) (receiveChunk_logged (hids i) _ _ _) ⟨htotal, rfl⟩
  rw [hdone] at hlog
  cases hown
  exact hlog value rfl

theorem mem_ownEvents {i : ι} {past : List (ι × Event serverSignature)} {event : Event serverSignature} :
    event ∈ ownEvents i past ↔ (i, event) ∈ past := by
  constructor
  · intro h
    obtain ⟨⟨j, found⟩, hmem, rfl⟩ := List.mem_map.mp h
    obtain ⟨hpast, hij⟩ := List.mem_filter.mp hmem
    cases of_decide_eq_true hij
    exact hpast
  · intro h
    exact List.mem_map.mpr ⟨(i, event), List.mem_filter.mpr ⟨h, decide_eq_true rfl⟩, rfl⟩

omit [DecidableEq ι] in
theorem mem_of_lastRecord {uploadId : String} {past : List (ι × Event serverSignature)} {i : ι} {n : Int}
    (h : lastRecord uploadId past = some (i, n)) : ∃ event, (i, event) ∈ past ∧ recorded uploadId event = some n := by
  obtain ⟨⟨j, event⟩, hmem, hrecorded⟩ := List.mem_filterMap.mp (List.mem_of_getLast? h)
  obtain ⟨m, hm, heq⟩ := Option.map_eq_some_iff.mp hrecorded
  cases heq
  exact ⟨event, hmem, hm⟩

omit [DecidableEq ι] in
theorem lastRecord_ne_none {uploadId : String} {past : List (ι × Event serverSignature)} {i : ι}
    {event : Event serverSignature} (hmem : (i, event) ∈ past) (h : (recorded uploadId event).isSome) :
    lastRecord uploadId past ≠ none := by
  obtain ⟨n, hn⟩ := Option.isSome_iff_exists.mp h
  have hfound : (i, n) ∈ past.filterMap fun event => (recorded uploadId event.2).map (Prod.mk event.1) :=
    List.mem_filterMap.mpr ⟨(i, event), hmem, by rw [hn]; rfl⟩
  rw [lastRecord, Ne, List.getLast?_eq_none_iff]
  exact List.ne_nil_of_mem hfound

/-- What the last number stored says: it is the number of chunk files exactly if its caller counted last. -/
theorem Counted.shows_iff {past : List (ι × Event serverSignature)} {initial : Int} {i : ι} {n : Int} {k : Nat}
    (h : Counted config row initial server past) (hlast : lastRecord row.id past = some (i, n))
    (haccepted : Accepted row k (ownEvents i past)) :
    ShowsProgress config row server ↔ CountedLast row.id past := by
  have hcount : chunkCount config row server.1.tree ≤ 2 ^ 32 - 1 := by
    have hbound : toU32 row.totalChunks < 2 ^ 32 := by
      unfold toU32
      omega
    exact h.chunks.count_le.trans (by omega)
  have hshows : ShowsProgress config row server ↔ n = chunkCount config row server.1.tree := by
    constructor
    · intro hshows
      obtain ⟨r, hr, hid⟩ := h.kept
      rw [← hshows r hr hid, h.stored r hr hid, hlast]
      rfl
    · intro hn r hr hid
      rw [h.stored r hr hid, hlast]
      exact hn
  have hcounted : CountedLast row.id past ↔ (lastListing (ownEvents i past)).isSome ∧
      ∀ event ∈ sinceListing i past, createsChunk event.2 = false := by
    constructor
    · exact fun hcounted => hcounted i n hlast
    · intro hcounted j m hjm
      rw [hlast] at hjm
      cases hjm
      exact hcounted
  obtain ⟨event, hevent, hrecorded⟩ := mem_of_lastRecord hlast
  have hn := haccepted.counts event (mem_ownEvents.mpr hevent) n hrecorded
  rw [hshows, hcounted]
  cases hlisting : lastListing (ownEvents i past) with
  | none =>
      -- Nothing was listed, so zero was stored, and the caller's own chunk file is there.
      rw [hlisting] at hn
      obtain ⟨creation, hcreation, hcreates⟩ := haccepted.creates
      have hpositive : 0 < past.countP fun event => createsChunk event.2 :=
        List.countP_pos_iff.mpr ⟨(i, creation), mem_ownEvents.mp hcreation, hcreates⟩
      have hcreated := h.created
      refine iff_of_false (fun heq => ?_) (fun hsome => by cases hsome.1)
      simp only [Option.map_none, Option.getD_none, Nat.zero_min] at hn
      omega
  | some names =>
      have hseen := h.seen i names hlisting
      rw [hlisting] at hn
      simp only [Option.map_some, Option.getD_some] at hn
      rw [min_eq_left (by omega)] at hn
      have hnone : (∀ event ∈ sinceListing i past, createsChunk event.2 = false) ↔
          (sinceListing i past).countP (fun event => createsChunk event.2) = 0 := by
        simp only [List.countP_eq_zero, Bool.not_eq_true]
      rw [hnone, Option.isSome_some]
      constructor
      · intro heq
        exact ⟨rfl, by omega⟩
      · intro h
        obtain ⟨-, hzero⟩ := h
        omega

omit [DecidableEq ι] in
/-- A new session has no chunk file, and shows none. -/
theorem initUpload_shows {uploadId : String} (hfresh : FreshUpload crates config server uploadId) {opened : Int}
    {params : InitUploadParams} {info : InitUploadResult} {started : Server} {quiet : Nat → Choice}
    (hquiet : QuietOracle quiet) (hopen : (initUpload crates config uploadId opened params).run (quietHandler quiet)
      server = (.ok info, started)) :
    ChunkDir config (newUploadRow uploadId info.expiresAt params) started.1.tree ∧
      newUploadRow uploadId info.expiresAt params ∈ started.2.rows ∧
      (∀ r ∈ started.2.rows, r.id = uploadId → r = newUploadRow uploadId info.expiresAt params) ∧
      ShowsProgress config (newUploadRow uploadId info.expiresAt params) started := by
  obtain ⟨-, hview⟩ := server_returns_of_ensures hquiet hopen (initUpload_opens hfresh opened params) info rfl
  obtain ⟨-, hstart⟩ := server_returns_of_ensures hquiet hopen (initUpload_ensures hfresh opened params) info rfl
  have htree : started.1.tree = server.1.tree.put (stagingDir config uploadId) .dir := congrArg Prod.fst hview
  have hrows : started.2.rows = server.2.rows ++ [newUploadRow uploadId info.expiresAt params] :=
    congrArg Prod.snd hview
  have hnames : started.1.tree.children (stagingDir config uploadId) = [] := by
    refine List.eq_nil_iff_forall_not_mem.mpr fun name hname => mem_children.mp hname ?_
    rw [htree, node_put_of_ne (by simp)]
    exact node_append_of_not_dir (by simp [hfresh.no_dir]) (List.cons_ne_nil _ _)
  have hunique : ∀ r ∈ started.2.rows, r.id = uploadId → r = newUploadRow uploadId info.expiresAt params := by
    intro r hr hid
    rw [hrows] at hr
    rcases List.mem_append.mp hr with hold | hnew
    · exact absurd hid (hfresh.no_row r hold)
    · exact List.mem_singleton.mp hnew
  refine ⟨⟨hstart.resolved, hstart.dir, fun name hname => ?_⟩, ?_, hunique, fun r hr hid => ?_⟩
  · have hnone : name ∈ ([] : List String) := hnames ▸ hname
    cases hnone
  · rw [hrows]
    exact List.mem_append_right _ (List.mem_singleton_self _)
  · rw [hunique r hr hid]
    show (0 : Int) = (chunkFiles (started.1.tree.children (stagingDir config uploadId)) : Nat)
    rw [hnames]
    rfl

/-- After any number of concurrent calls on a session have all returned `Ok`, its row shows the number of its chunk
files exactly if whoever stored the last number had listed the directory after the last chunk file was created. -/
theorem progress_iff (crates : Crates) (config : AppConfig) (row : ChunkedUpload) (server : Server)
    (hchunks : ChunkDir config row server.1.tree) (hrow : row ∈ server.2.rows)
    (hunique : ∀ r ∈ server.2.rows, r.id = row.id → r = row)
    (hstart : IsEmpty ι → ShowsProgress config row server) (calls : ι → ReceiveCall)
    (hids : ∀ i, (calls i).session.uploadId = row.id) (oracle : Nat → Choice) (dbOracle : Nat → Option String)
    (schedule : List ι) (hdone : ∀ i, ∃ value,
      (Pool.run (serverHandler oracle dbOracle) schedule (receiving crates config calls) server).1 i =
        .done value) :
    ShowsProgress config row
        (Pool.run (serverHandler oracle dbOracle) schedule (receiving crates config calls) server).2 ↔
      CountedLast row.id
        (Pool.trace (serverHandler oracle dbOracle) schedule (receiving crates config calls) server) := by
  have htotal : KeepsTotal row server := fun r hr hid => by rw [hunique r hr hid]
  have haccepted : ∀ i, Accepted row (calls i).chunkIndex _ := fun i =>
    (hdone i).elim fun value hvalue => accepted_of_done hids htotal schedule hvalue
  have hcounted : Counted config row row.receivedChunks _ ([] ++ _) :=
    Pool.invariant_past (P := fun i => Receives config row.id (calls i).chunkIndex)
      (I := Counted config row row.receivedChunks) (h := serverHandler oracle dbOracle)
      (fun i op server past hop h => h.step i (haccepted i).inRange hop) schedule (receiving crates config calls)
      server [] (receiving_only hids)
      ⟨hchunks, nofun, fun r hr hid => by rw [hunique r hr hid]; rfl, ⟨row, hrow, rfl⟩, Nat.zero_le _⟩
  rw [List.nil_append] at hcounted
  by_cases hempty : IsEmpty ι
  · cases schedule with
    | nil => exact iff_of_true (hstart hempty) nofun
    | cons i _ => exact hempty.elim i
  · obtain ⟨i⟩ := not_isEmpty_iff.mp hempty
    obtain ⟨event, hevent, hrecorded⟩ := (haccepted i).records
    obtain ⟨⟨j, n⟩, hlast⟩ := Option.ne_none_iff_exists'.mp
      (lastRecord_ne_none (mem_ownEvents.mp hevent) hrecorded)
    exact hcounted.shows_iff hlast (haccepted j)

/-- Both chunks of the file of two bytes. -/
def bothChunks (second : Bool) : ReceiveCall := ⟨-1, twoBytesSession, if second then 1 else 0, [7]⟩

/-- The first chunk is counted before the second one arrives, and its number is stored after that of the second. -/
def overtaken : List Bool := List.replicate 8 false ++ List.replicate 9 true ++ [false]

/-- The first chunk is in its file before the second one arrives, and counted when that call is over. -/
def countedLater : List Bool := List.replicate 6 false ++ List.replicate 9 true ++ List.replicate 4 false

/-- Counted like this, the row of a new session shows both chunks. -/
theorem progress_iff_countedLater :
    (ShowsProgress sampleConfig (newUploadRow "u" "" twoBytes)
        (Pool.run (serverHandler calmOracle fun _ => none) countedLater
          (receiving sampleCrates sampleConfig bothChunks) startedServer).2 ↔
      CountedLast "u" (Pool.trace (serverHandler calmOracle fun _ => none) countedLater
        (receiving sampleCrates sampleConfig bothChunks) startedServer)) ∧
    ShowsProgress sampleConfig (newUploadRow "u" "" twoBytes)
      (Pool.run (serverHandler calmOracle fun _ => none) countedLater
        (receiving sampleCrates sampleConfig bothChunks) startedServer).2 := by
  have hopen : (initUpload sampleCrates sampleConfig "u" (-2) twoBytes).run (quietHandler calmOracle) emptyServer =
      (.ok ⟨"u", 1, 2, 2, ""⟩, startedServer) := Prod.ext (by decide) rfl
  obtain ⟨hdir, hrow, honly, hshows⟩ := initUpload_shows emptyServer_fresh calmOracle_quiet hopen
  have hiff := progress_iff sampleCrates sampleConfig (newUploadRow "u" "" twoBytes) startedServer hdir hrow honly
    (fun _ => hshows) bothChunks (fun _ => rfl) calmOracle (fun _ => none) countedLater
    (fun i => by cases i <;> exact ⟨_, rfl⟩)
  refine ⟨hiff, ?_⟩
  unfold ShowsProgress
  decide

/-- Both calls return `Ok`, and the row shows one chunk of two. -/
theorem progress_lost :
    (∀ i, ∃ value, (Pool.run (serverHandler calmOracle fun _ => none) overtaken
      (receiving sampleCrates sampleConfig bothChunks) startedServer).1 i = .done value) ∧
    (Pool.run (serverHandler calmOracle fun _ => none) overtaken
      (receiving sampleCrates sampleConfig bothChunks) startedServer).2.2.rows.map ChunkedUpload.receivedChunks = [1] ∧
    chunkCount sampleConfig (newUploadRow "u" "" twoBytes) (Pool.run (serverHandler calmOracle fun _ => none) overtaken
      (receiving sampleCrates sampleConfig bothChunks) startedServer).2.1.tree = 2 := by
  refine ⟨?_, ?_, ?_⟩
  · intro i
    cases i <;> exact ⟨_, rfl⟩
  · decide
  · decide

end ChunkService

end IronDrive
