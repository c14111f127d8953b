import IronDrive.ChunkCleanup
import IronDrive.ChunkUpload
import IronDrive.LibTimestamps
import IronDrive.LoginSessions

/-! Two ways to tell that a session has expired. One reads its date and compares moments, the other compares the texts
of two dates in the database. Both cleanups go by the texts, and so does nobody else. -/

namespace IronDrive

open Lib ChunkService

/-- Some moments are written to the second, and read back. -/
structure WritesMoments (format : Int → String) (parse : String → Option Int) (moments : Set Int) : Prop where
  format_eq : ∀ s ∈ moments, format s = dateTimeText s
  parse_eq : ∀ s ∈ moments, parse (dateTimeText s) = some s

section Logins

variable {auth : AuthCrates} {P : Primitives} {moments : Set Int} {e now : Int} {oracle : Nat → Choice}
  {dbOracle : Nat → Option String} {site site' : Site}

/-- The second that a session opened at this time expires at. -/
def sessionExpiry (config : AppConfig) (opened : Int) : Int :=
  (opened + 3600 * nanos * toI64 config.sessionExpiryHours) / nanos

/-- What a login adds to the table expires so many hours later. -/
theorem login_stores {config : AppConfig} {drawn : Drawn} {opened : Int} {token username password : String}
    {row : SessionRow}
    (hrow : row ∈ ((AuthService.login auth config P drawn opened token username password).run
      (serviceHandler oracle dbOracle) site).2.db.sessions.rows) :
    row ∈ site.db.sessions.rows ∨ row.expiresAt = auth.formatTimestamp (sessionExpiry config opened) := by
  have hlogin : (AuthService.login auth config P drawn opened token username password).Ensures
      (Serves (fun _ => True) fun _ => True) site.view fun _ v' => ∀ row ∈ v'.2.db.sessions.rows,
        row ∈ site.db.sessions.rows ∨ row.expiresAt = auth.formatTimestamp (sessionExpiry config opened) := by
    refine login_ensures.mono fun result v' h row hrow => ?_
    cases result with
    | error error => 
        rw [show v'.2.db = site.db from h] at hrow
        exact Or.inl hrow
    | ok result =>
        obtain ⟨new, n, -, -, hexpires, hinsert⟩ := h
        obtain ⟨hid, htables, -⟩ := Db.insertSession_ok hinsert
        have hsessions : v'.2.db.sessions = site.view.2.db.sessions.insert new hid := congrArg Tables.sessions htables
        rw [hsessions, Table.mem_insert] at hrow
        rcases hrow with hold | rfl
        · exact Or.inl hold
        · exact Or.inr hexpires
  exact service_run (fun _ => trivial) (fun _ => trivial) hlogin row hrow

theorem SessionRow.isExpired_iff (hdates : WritesMoments auth.formatTimestamp auth.parseTimestamp moments)
    (he : e ∈ moments) {row : SessionRow} (hrow : row.expiresAt = auth.formatTimestamp e) :
    row.isExpired auth now = true ↔ e ≤ now / nanos := by
  rw [SessionRow.isExpired, hrow, hdates.format_eq e he, hdates.parse_eq e he]
  dsimp only
  rw [decide_eq_true_iff, Int.le_ediv_iff_mul_le (by decide)]

/-- A cleanup that goes through deletes what has a text up to the present one. -/
theorem deleteExpired_deletes {count : Nat}
    (hrun : (SessionRow.deleteExpired auth now).run (serviceHandler oracle dbOracle) site = (.ok count, site'))
    {row : SessionRow} (hrow : row ∈ site.db.sessions.rows) :
    row ∉ site'.db.sessions.rows ↔ row.expiresAt ≤ auth.formatTimestamp (now / nanos) := by
  have hdelete : (SessionRow.deleteExpired auth now).Ensures (Serves (fun _ => True) fun _ => True) site.view
      fun result v' => ∀ n, result = .ok n → Db.deleteSessions
        (fun row => row.expiresAt ≤ auth.formatTimestamp (now / nanos)) site.view.2.db = .ok (n, v'.2.db) := by
    apply deleteRows_ensures
    · intro n db' hdelete m hm
      rw [← Except.ok.inj hm]
      exact hdelete
    · exact fun _ => nofun
  have hresult : ∀ n, ((SessionRow.deleteExpired auth now).run (serviceHandler oracle dbOracle) site).1 = .ok n →
      Db.deleteSessions (fun row => row.expiresAt ≤ auth.formatTimestamp (now / nanos)) site.view.2.db = .ok (n,
        ((SessionRow.deleteExpired auth now).run (serviceHandler oracle dbOracle) site).2.view.2.db) :=
    service_run (fun _ => trivial) (fun _ => trivial) hdelete
  rw [hrun] at hresult
  have hsessions : site'.db.sessions = site.db.sessions.deleteWhere
      fun row => row.expiresAt ≤ auth.formatTimestamp (now / nanos) :=
    congrArg Tables.sessions (Db.deleteSessions_ok (hresult count rfl))
  rw [hsessions, Table.mem_deleteWhere, not_and, Bool.not_eq_false, decide_eq_true_iff]
  exact ⟨fun h => h hrow, fun h _ => h⟩

end Logins

section Uploads

variable {crates : Crates} {config : AppConfig} {moments : Set Int} {e now : Int} {oracle : Nat → Choice}
  {stale : Nat → Option Bytes} {dbOracle : Nat → Option String} {server : Server} {row : ChunkedUpload}

/-- The second that an upload session opened at this time expires at. -/
def uploadExpiry (config : AppConfig) (opened : Int) : Int := opened + 3600 * toI64 config.chunkUploadExpiryHours

/-- The calls of opening a session: it changes the table by rows with this date. -/
def InsertsAt (expiresAt : String) : serverSignature.Op → Prop
  | .inl _ => True
  | .inr (.insert row) => row.expiresAt = expiresAt
  | .inr _ => False

theorem initUpload_insertsAt {uploadId : String} {opened : Int} {params : InitUploadParams} :
    (initUpload crates config uploadId opened params).Only
      (InsertsAt (crates.formatTimestamp (uploadExpiry config opened))) fun _ => True := by
  unfold initUpload
  cases checkInitUpload config params with
  | error e => trivial
  | ok u =>
      refine ⟨trivial, fun made => ?_⟩
      cases made with
      | error e => trivial
      | ok u =>
          refine ⟨rfl, fun inserted => ?_⟩
          cases inserted <;> trivial

theorem mem_of_inserted {fault : Option String} {new : ChunkedUpload} {rows : List ChunkedUpload}
    (h : row ∈ (UploadsCall.perform fault (.insert new) rows).2) : row ∈ rows ∨ row = new := by
  cases fault with
  | some message => exact Or.inl h
  | none =>
      simp only [UploadsCall.perform] at h
      split at h
      · exact Or.inl h
      · exact (List.mem_append.mp h).imp id List.mem_singleton.mp

/-- What an opened session adds to the table expires so many hours later. -/
theorem initUpload_stores {uploadId : String} {opened : Int} {params : InitUploadParams}
    (hrow : row ∈ ((initUpload crates config uploadId opened params).run
      (serverHandler oracle dbOracle) server).2.2.rows) :
    row ∈ server.2.rows ∨ row.expiresAt = crates.formatTimestamp (uploadExpiry config opened) := by
  have hkeeps : (initUpload crates config uploadId opened params).Ensures
      (Program.Exactly (serverHandler oracle dbOracle)) server fun _ server' => ∀ row ∈ server'.2.rows,
        row ∈ server.2.rows ∨ row.expiresAt = crates.formatTimestamp (uploadExpiry config opened) := by
    refine initUpload_insertsAt.ensures (fun op before answer after hop hbefore hstep => ?_) fun _ => Or.inl
    obtain ⟨-, rfl⟩ := hstep
    cases op with
    | inl op => exact hbefore
    | inr op =>
        cases op with
        | insert new =>
            intro row hrow
            rcases mem_of_inserted hrow with hold | rfl
            · exact hbefore row hold
            · exact Or.inr hop
        | load id targetType => cases hop
        | setReceived id n => cases hop
        | delete id => cases hop
  exact hkeeps.run_exactly row hrow

theorem isExpired_eq_false_iff (hdates : WritesMoments crates.formatTimestamp crates.parseTimestamp moments)
    (he : e ∈ moments) (hrow : row.expiresAt = crates.formatTimestamp e) :
    isExpired crates now row.expiresAt = false ↔ now < e := by
  rw [isExpired, hrow, hdates.format_eq e he, hdates.parse_eq e he]
  dsimp only
  rw [decide_eq_false_iff_not, not_le]

/-- Nothing is added, every row without one of these ids is still there, and none with one, unless statements fail. -/
structure Drops (uploadIds : List String) (calm : Prop) (rows rows' : List ChunkedUpload) : Prop where
  subset : ∀ row ∈ rows', row ∈ rows
  kept : ∀ row ∈ rows, row.id ∉ uploadIds → row ∈ rows'
  gone : calm → ∀ row ∈ rows', row.id ∉ uploadIds

theorem Drops.refl (calm : Prop) (rows : List ChunkedUpload) : Drops [] calm rows rows where
  subset _ := id
  kept _ hrow _ := hrow
  gone _ _ _ := List.not_mem_nil

theorem drops_delete {uploadId : String} {fault : Option String} {calm : Prop} (hcalm : calm → fault = none)
    (rows : List ChunkedUpload) : Drops [uploadId] calm rows (UploadsCall.perform fault (.delete uploadId) rows).2 := by
  cases fault with
  | some message => exact ⟨fun _ => id, fun _ hrow _ => hrow, fun h => nomatch hcalm h⟩
  | none =>
      refine ⟨fun row hrow => List.mem_of_mem_filter hrow, fun row hrow hid => List.mem_filter.mpr ⟨hrow, ?_⟩,
        fun _ row hrow hid => ?_⟩
      · rw [List.mem_singleton] at hid
        exact decide_eq_true hid
      · exact of_decide_eq_true (List.mem_filter.mp hrow).2 (List.mem_singleton.mp hid)

theorem Drops.cons {uploadId : String} {rest : List String} {calm : Prop} {rows rows' rows'' : List ChunkedUpload}
    (h : Drops [uploadId] calm rows rows') (hrest : Drops rest calm rows' rows'') :
    Drops (uploadId :: rest) calm rows rows'' := by
  refine ⟨fun row hrow => h.subset row (hrest.subset row hrow), fun row hrow hid => ?_, fun hcalm row hrow hid => ?_⟩
  · obtain ⟨hfirst, hlater⟩ := not_or.mp (mt List.mem_cons.mpr hid)
    exact hrest.kept row (h.kept row hrow (mt List.mem_singleton.mp hfirst)) hlater
  · rcases List.mem_cons.mp hid with hfirst | hlater
    · exact h.gone hcalm row (hrest.subset row hrow) (List.mem_singleton.mpr hfirst)
    · exact hrest.gone hcalm row hrow hlater

/-- The cleanup drops the rows with the ids it goes through. -/
theorem cleanupUploads_drops (uploadIds : List String) : ∀ (cleaned : Nat) (server : Server),
    (cleanupUploads config uploadIds cleaned).Ensures (Program.Exactly (chunkHandler oracle stale dbOracle)) server
      fun _ server' => Drops uploadIds (∀ tick, dbOracle tick = none) server.2.rows server'.2.rows := by
  induction uploadIds with
  | nil => exact fun _ server => Drops.refl _ server.2.rows
  | cons uploadId rest ih =>
      intro cleaned server
      have hdelete : ∀ before : Server, before.2.rows = server.2.rows →
          ((statement (.delete uploadId)).inl.bind fun _ => cleanupUploads config rest (cleaned + 1)).Ensures
            (Program.Exactly (chunkHandler oracle stale dbOracle)) before fun _ server' =>
              Drops (uploadId :: rest) (∀ tick, dbOracle tick = none) server.2.rows server'.2.rows := by
        intro before hrows answer after hstep
        obtain ⟨-, rfl⟩ := hstep
        refine (ih (cleaned + 1) _).mono fun _ server' hrest => ?_
        rw [← hrows]
        exact (drops_delete (fun hcalm => hcalm before.2.tick) before.2.rows).cons hrest
      intro answer after hstep
      obtain ⟨-, rfl⟩ := hstep
      cases answer with
      | error e => exact hdelete _ rfl
      | ok found =>
          cases found with
          | false => exact hdelete _ rfl
          | true =>
              intro answer after hstep
              obtain ⟨-, rfl⟩ := hstep
              exact hdelete _ rfl

/-- The cleanup drops exactly the rows with an earlier text, unless statements fail. -/
theorem cleanupExpiredUploads_drops :
    (cleanupExpiredUploads crates config now).Ensures (Program.Exactly (chunkHandler oracle stale dbOracle)) server
      fun _ server' => (server.2.rows.map ChunkedUpload.id).Nodup → ∀ row ∈ server.2.rows,
        (row ∉ server'.2.rows → row.expiresAt < crates.formatTimestamp now) ∧
        ((∀ tick, dbOracle tick = none) → row.expiresAt < crates.formatTimestamp now → row ∉ server'.2.rows) := by
  intro answer after hstep
  obtain ⟨rfl, rfl⟩ := hstep
  change (Program.bind (Program.ofExcept ((ExpiredCall.perform (dbOracle server.2.tick)
    (.selectExpired (crates.formatTimestamp now)) server.2.rows).mapError AppError.sqlx)) _).Ensures _ _ _
  refine Program.ensures_ofExcept_bind (fun uploadIds hids => ?_) fun error herror => ?_
  · have hselected : uploadIds = (server.2.rows.filter fun row => row.expiresAt < crates.formatTimestamp now).map
        ChunkedUpload.id := by
      revert hids
      cases dbOracle server.2.tick with
      | some message => exact nofun
      | none => exact fun hids => (Except.ok.inj hids).symm
    refine (cleanupUploads_drops uploadIds 0 _).mono fun _ server' hdrops hnodup row hrow => ⟨fun hgone => ?_, ?_⟩
    · have hid : row.id ∈ uploadIds := by
        by_contra hid
        exact hgone (hdrops.kept row hrow hid)
      rw [hselected] at hid
      obtain ⟨other, hother, hsame⟩ := List.mem_map.mp hid
      obtain ⟨hmem, hearlier⟩ := List.mem_filter.mp hother
      rw [List.inj_on_of_nodup_map hnodup hrow hmem hsame.symm]
      exact of_decide_eq_true hearlier
    · intro hcalm hearlier hkept
      apply hdrops.gone hcalm row hkept
      rw [hselected]
      exact List.mem_map_of_mem (List.mem_filter.mpr ⟨hrow, decide_eq_true hearlier⟩)
  · intro hnodup row hrow
    refine ⟨fun hgone => absurd hrow hgone, fun hcalm => ?_⟩
    rw [hcalm server.2.tick] at herror
    cases herror

/-- The row passes the check that receiving a chunk and completing the upload start with. -/
def StillAccepted (crates : Crates) (now : Int) (server : Server) (row : ChunkedUpload) : Prop :=
  ∃ oracle dbOracle session, session.uploadId = row.id ∧
    ((requireSession crates now session).run (serverHandler oracle dbOracle) server).1 = .ok row

/-- When the check passes, and with which row. -/
theorem requireSession_ok_iff {session : Session} :
    ((requireSession crates now session).run (serverHandler oracle dbOracle) server).1 = .ok row ↔
      crates.uuidParses session.uploadId = true ∧ dbOracle server.2.tick = none ∧
      server.2.rows.find? (fun row => row.id = session.uploadId && row.targetType = session.targetType) = some row ∧
      row.userId = session.userId ∧ row.targetId = session.targetId ∧ isExpired crates now row.expiresAt = false := by
  refine Program.Ensures.run_exactly (Q := fun result _ => result = .ok row ↔ _) ?_
  unfold requireSession validateUploadId
  by_cases huuid : crates.uuidParses session.uploadId = true
  · rw [if_pos huuid]
    refine Program.ensures_exactly_ask ?_
    simp only [serverHandler, Program.sumHandler, uploadsHandler, UploadsCall.perform]
    cases dbOracle server.2.tick with
    | some message =>
        refine iff_of_false (fun h => by cases h) fun h => ?_
        cases h.2.1
    | none =>
        cases server.2.rows.find? fun row => row.id = session.uploadId && row.targetType = session.targetType with
        | none =>
            refine iff_of_false (fun h => by cases h) fun h => ?_
            cases h.2.2.1
        | some found =>
            change (if found.userId ≠ session.userId ∨ found.targetId ≠ session.targetId then Program.fail .notFound
              else if isExpired crates now found.expiresAt then
                Program.fail (.validation "Upload session has expired.")
              else Program.done found : ServerProgram ChunkedUpload).Ensures _ _ _
            split
            · next hother =>
              refine iff_of_false (fun h => by cases h) fun h => ?_
              obtain ⟨-, -, hfound, huser, htarget, -⟩ := h
              cases hfound
              exact hother.elim (fun hnot => hnot huser) fun hnot => hnot htarget
            · next howns =>
              obtain ⟨huser, htarget⟩ := not_or.mp howns
              split
              · next hexpired =>
                refine iff_of_false (fun h => by cases h) fun h => ?_
                obtain ⟨-, -, hfound, -, -, hdate⟩ := h
                cases hfound
                rw [hdate] at hexpired
                cases hexpired
              · next hdate =>
                refine ⟨fun h => ?_, fun h => congrArg Except.ok (Option.some.inj h.2.2.1)⟩
                cases h
                exact ⟨huuid, rfl, rfl, not_not.mp huser, not_not.mp htarget, Bool.eq_false_iff.mpr hdate⟩
  · rw [if_neg huuid]
    exact iff_of_false (fun h => by cases h) fun h => huuid h.1

theorem find_session_iff {rows : List ChunkedUpload} (hnodup : (rows.map ChunkedUpload.id).Nodup)
    {uploadId targetType : String} :
    rows.find? (fun row => row.id = uploadId && row.targetType = targetType) = some row ↔
      row ∈ rows ∧ row.id = uploadId ∧ row.targetType = targetType := by
  constructor
  · intro h
    have hsame := List.find?_some h
    rw [Bool.and_eq_true, decide_eq_true_iff, decide_eq_true_iff] at hsame
    exact ⟨List.mem_of_find?_eq_some h, hsame⟩
  · intro h
    obtain ⟨hrow, hid, htype⟩ := h
    cases hfind : rows.find? (fun row => row.id = uploadId && row.targetType = targetType) with
    | none => exact absurd (List.find?_eq_none.mp hfind row hrow) (by simp [hid, htype])
    | some found =>
        have hsame := List.find?_some hfind
        rw [Bool.and_eq_true, decide_eq_true_iff] at hsame
        rw [List.inj_on_of_nodup_map hnodup (List.mem_of_find?_eq_some hfind) hrow (hsame.1.trans hid.symm)]

theorem stillAccepted_iff (hnodup : (server.2.rows.map ChunkedUpload.id).Nodup) (hrow : row ∈ server.2.rows)
    (huuid : crates.uuidParses row.id = true) :
    StillAccepted crates now server row ↔ isExpired crates now row.expiresAt = false := by
  constructor
  · intro h
    obtain ⟨oracle, dbOracle, session, -, hrun⟩ := h
    exact (requireSession_ok_iff.mp hrun).2.2.2.2.2
  · intro hdate
    refine ⟨calmOracle, fun _ => none, ⟨row.userId, row.targetId, row.targetType, row.id⟩, rfl, ?_⟩
    exact requireSession_ok_iff.mpr ⟨huuid, rfl, (find_session_iff hnodup).mpr ⟨hrow, rfl, rfl⟩, rfl, rfl, hdate⟩

/-- A call that succeeds has found a session that is still accepted. -/
theorem stillAccepted_of_required {α : Type} {f : ChunkedUpload → ServerProgram α} {session : Session} {value : α}
    (hnodup : (server.2.rows.map ChunkedUpload.id).Nodup) (hrow : row ∈ server.2.rows)
    (hid : session.uploadId = row.id)
    (hrun : (((requireSession crates now session).bind f).run (serverHandler oracle dbOracle) server).1 = .ok value) :
    StillAccepted crates now server row := by
  obtain ⟨found, hfound⟩ := Program.ok_of_run_bind hrun
  obtain ⟨hmem, hsame, -⟩ := (find_session_iff hnodup).mp (requireSession_ok_iff.mp hfound).2.2.1
  obtain rfl : found = row := List.inj_on_of_nodup_map hnodup hmem hrow (hsame.trans hid)
  exact ⟨oracle, dbOracle, session, hid, hfound⟩

/-- The cleanup removes a session that is still accepted. -/
def RemovesAccepted (crates : Crates) (config : AppConfig) (now : Int) (server : Server) (row : ChunkedUpload)
    (handler : Handler chunkSignature Server) : Prop :=
  row ∉ ((cleanupExpiredUploads crates config now).run handler server).2.2.rows ∧ StillAccepted crates now server row

end Uploads

/-- Expiry is decided in the same way exactly while the years are in order. What `login` and `initUpload` store
expires at some moment. The cleanup of sessions then deletes it if and only if it has expired, just in case the texts
of its year and of the present one sort like the years. The cleanup of uploads removes no session that is still
accepted, just in case they do or the year of its date has come; a chunk received and an upload completed were
accepted. -/
theorem expiry_agrees_iff (auth : AuthCrates) (crates : Crates) (moments : Set Int)
    (hauth : WritesMoments auth.formatTimestamp auth.parseTimestamp moments)
    (hcrates : WritesMoments crates.formatTimestamp crates.parseTimestamp moments)
    (e now : Int) (he : e ∈ moments) (hnow : now / nanos ∈ moments) :
    (∀ P config drawn opened token username password oracle dbOracle site,
      ∀ row ∈ ((AuthService.login auth config P drawn opened token username password).run
          (serviceHandler oracle dbOracle) site).2.db.sessions.rows,
        row ∈ site.db.sessions.rows ∨ row.expiresAt = auth.formatTimestamp (sessionExpiry config opened)) ∧
    (∀ config uploadId opened params oracle dbOracle server,
      ∀ row ∈ ((initUpload crates config uploadId opened params).run (serverHandler oracle dbOracle) server).2.2.rows,
        row ∈ server.2.rows ∨ row.expiresAt = crates.formatTimestamp (uploadExpiry config opened)) ∧
    (∀ (site site' : Site) (row : SessionRow) (oracle : Nat → Choice) (dbOracle : Nat → Option String) (count : Nat),
      row ∈ site.db.sessions.rows → row.expiresAt = auth.formatTimestamp e →
      (SessionRow.deleteExpired auth now).run (serviceHandler oracle dbOracle) site = (.ok count, site') →
      ((row ∉ site'.db.sessions.rows ↔ row.isExpired auth now = true) ↔
        YearsInOrder (yearAt e) (yearAt (now / nanos)))) ∧
    ∀ (config : AppConfig) (server : Server) (row : ChunkedUpload), (server.2.rows.map ChunkedUpload.id).Nodup →
      row ∈ server.2.rows → crates.uuidParses row.id = true → row.expiresAt = crates.formatTimestamp e →
      ((∀ oracle stale dbOracle,
          ¬ RemovesAccepted crates config (now / nanos) server row (chunkHandler oracle stale dbOracle)) ↔
        yearAt e ≤ yearAt (now / nanos) ∨ YearsInOrder (yearAt e) (yearAt (now / nanos))) ∧
      (∀ session oracle dbOracle, session.uploadId = row.id →
        ((∃ index data result, ((receiveChunk crates config (now / nanos) session index data).run
            (serverHandler oracle dbOracle) server).1 = .ok result) ∨
          ∃ P unlockState nonce writeVerify result, ((completeUpload crates config P unlockState (now / nanos) nonce
            session writeVerify).run (serverHandler oracle dbOracle) server).1 = .ok result) →
        StillAccepted crates (now / nanos) server row) := by
  refine ⟨fun _ _ _ _ _ _ _ _ _ _ _ => login_stores, fun _ _ _ _ _ _ _ _ => initUpload_stores,
    fun site site' row oracle dbOracle count hrow hdate hrun => ?_,
    fun config server row hnodup hrow huuid hdate => ⟨?_, ?_⟩⟩
  · rw [deleteExpired_deletes hrun hrow, SessionRow.isExpired_iff hauth he hdate, hdate, hauth.format_eq e he,
      hauth.format_eq _ hnow]
    exact dateTimeText_le_agrees_iff
  · have haccepted : StillAccepted crates (now / nanos) server row ↔ now / nanos < e :=
      (stillAccepted_iff hnodup hrow huuid).trans (isExpired_eq_false_iff hcrates he hdate)
    rw [← dateTimeText_not_early_iff, ← hcrates.format_eq e he, ← hcrates.format_eq _ hnow, ← hdate, ← haccepted]
    constructor
    · intro hnever hearly
      apply hnever calmOracle (fun _ => none) fun _ => none
      exact ⟨(cleanupExpiredUploads_drops.run_exactly hnodup row hrow).2 (fun _ => rfl) hearly.1, hearly.2⟩
    · intro hnot oracle stale dbOracle hremoved
      exact hnot ⟨(cleanupExpiredUploads_drops.run_exactly hnodup row hrow).1 hremoved.1, hremoved.2⟩
  · intro session oracle dbOracle hid hsucceeds
    rcases hsucceeds with ⟨index, data, result, hrun⟩ | ⟨P, unlockState, nonce, writeVerify, result, hrun⟩
    · exact stillAccepted_of_required hnodup hrow hid hrun
    · exact stillAccepted_of_required hnodup hrow hid hrun

/-! ### A session of eleven thousand years -/

/-- Reads the dates of some moments. -/
def readMoment (moments : List Int) (text : String) : Option Int := moments.find? fun s => dateTimeText s = text

theorem readMoment_writes (moments : List Int) : WritesMoments dateTimeText (readMoment moments) {s | s ∈ moments} where
  format_eq _ _ := rfl
  parse_eq s hs := by
    rw [readMoment]
    cases hfind : moments.find? fun other => dateTimeText other = dateTimeText s with
    | none => exact absurd (List.find?_eq_none.mp hfind s hs) (by simp)
    | some other =>
        have hsame := List.find?_some hfind
        rw [dateTimeText_injective (of_decide_eq_true hsame)]

def momentAuth (moments : List Int) : AuthCrates :=
  { sampleAuthCrates with formatTimestamp := dateTimeText, parseTimestamp := readMoment moments }

def momentCrates (moments : List Int) : Crates :=
  { sampleCrates with formatTimestamp := dateTimeText, parseTimestamp := readMoment moments }

/-- A morning of October 2025, in seconds. -/
def october : Int := 1760000000

/-- Alice logs in, for so many hours. -/
def octoberLogin (hours : Nat) : Site :=
  let config := { sampleConfig with sessionExpiryHours := hours }
  ((AuthService.login (momentAuth []) config plainPrimitives (sampleDrawn "s") (october * nanos) "t" "alice"
    "password").run (serviceHandler calmOracle fun _ => none) aliceSite).2

/-- Alice opens an upload session, for so many hours. -/
def octoberUpload (hours : Nat) : Server :=
  let config := { sampleConfig with chunkUploadExpiryHours := hours }
  ((initUpload (momentCrates []) config "u" october twoBytes).run (quietHandler calmOracle) emptyServer).2

/-- The moments of the examples: the login, a day later, a hundred million hours later. -/
def octoberMoments : List Int := [october, october + 3600 * 24, october + 3600 * 10 ^ 8]

/-- Sessions that last a hundred million hours are deleted at once. -/
theorem expiry_disagrees :
    (∃ row ∈ (octoberLogin (10 ^ 8)).db.sessions.rows,
      row.isExpired (momentAuth octoberMoments) (october * nanos) = false ∧
      row ∉ ((SessionRow.deleteExpired (momentAuth octoberMoments) (october * nanos)).run
        (serviceHandler calmOracle fun _ => none) (octoberLogin (10 ^ 8))).2.db.sessions.rows) ∧
    ∃ row ∈ (octoberUpload (10 ^ 8)).2.rows, RemovesAccepted (momentCrates octoberMoments) sampleConfig october
      (octoberUpload (10 ^ 8)) row (chunkHandler calmOracle (fun _ => none) fun _ => none) := by
  refine ⟨by decide +kernel, newUploadRow "u" "+13433-09-20 00:53:20" twoBytes, by decide +kernel,
    by decide +kernel, ?_⟩
  exact ⟨calmOracle, fun _ => none, twoBytesSession, by decide, by decide +kernel⟩

def dayLogin : SessionRow :=
  ⟨"s", "alice", AuthService.hashToken plainPrimitives "t", "2025-10-10 08:53:20", "2025-01-01 00:00:00"⟩

/-- Sessions that last a day, at the end of it. -/
theorem expiry_agrees_iff_day :
    (dayLogin ∉ ((SessionRow.deleteExpired (momentAuth octoberMoments) ((october + 3600 * 24) * nanos)).run
        (serviceHandler calmOracle fun _ => none) (octoberLogin 24)).2.db.sessions.rows ↔
      dayLogin.isExpired (momentAuth octoberMoments) ((october + 3600 * 24) * nanos) = true) ∧
    ∀ oracle stale dbOracle, ¬ RemovesAccepted (momentCrates octoberMoments) sampleConfig
      ((october + 3600 * 24) * nanos / nanos) (octoberUpload 24) (newUploadRow "u" "2025-10-10 08:53:20" twoBytes)
      (chunkHandler oracle stale dbOracle) := by
  obtain ⟨-, -, hlogins, huploads⟩ := expiry_agrees_iff (momentAuth octoberMoments) (momentCrates octoberMoments) _
    (readMoment_writes octoberMoments) (readMoment_writes octoberMoments) (october + 3600 * 24)
    ((october + 3600 * 24) * nanos) (by decide) (by decide)
  constructor
  · exact (hlogins (octoberLogin 24) _ dayLogin calmOracle (fun _ => none) 1 (by decide +kernel) (by decide +kernel)
      (Prod.ext (by decide +kernel) rfl)).mpr (Or.inl rfl)
  · exact (huploads sampleConfig (octoberUpload 24) (newUploadRow "u" "2025-10-10 08:53:20" twoBytes)
      (by decide +kernel) (by decide +kernel) rfl (by decide +kernel)).1.mpr (Or.inl (by decide +kernel))

end IronDrive
