import IronDrive.LibHistory
import IronDrive.NoEscalation
import IronDrive.ServiceLicences
import IronDrive.SpaceRoutes

/-! Requests whose calls are interleaved in any order, with any of them failing. What a request has been told was true
at one of its own earlier turns, so each change of the rights can be traced to the state in which its actor was allowed
to make it. -/

namespace IronDrive

open Lib GroupService SpaceService

section Call

variable {oracle : Nat → Choice} {dbOracle : Nat → Option String} {site : Site}

/-- A query that is answered has read the database. -/
theorem value_of_answer {α : Type} {q : Db → α} {value : α}
    (h : (serviceHandler oracle dbOracle (.inr (.select q)) site).1 = (.ok value : Except SqlError α)) :
    q site.db = value := by
  simp only [serviceHandler, Program.sumHandler, storeHandler, StoreCall.perform] at h
  split at h
  · cases h
  · exact Except.ok.inj h

/-- A statement that is answered has been carried out. -/
theorem applied_of_answer {statement : Db → Db.Outcome} {n : Nat}
    (h : (serviceHandler oracle dbOracle (.inr (.execute statement)) site).1 = (.ok n : Except SqlError Nat)) :
    statement site.db = .ok (n, (serviceHandler oracle dbOracle (.inr (.execute statement)) site).2.db) := by
  simp only [serviceHandler, Program.sumHandler, storeHandler, Site.db] at h ⊢
  cases hfault : dbOracle site.2.tick with
  | some message =>
      rw [hfault] at h
      cases h
  | none =>
      simp only [hfault, StoreCall.perform] at h ⊢
      cases hstatement : statement site.2.records.db with
      | error error =>
          rw [Db.execute_error hstatement] at h
          cases h
      | ok found =>
          rw [Db.execute_ok hstatement] at h ⊢
          cases h
          rfl

/-- Only a statement that is carried out changes the database. -/
theorem db_after_call (oracle : Nat → Choice) (dbOracle : Nat → Option String) (op : serviceSignature.Op)
    (site : Site) :
    (serviceHandler oracle dbOracle op site).2.db = site.db ∨
      ∃ statement n, op = .inr (.execute statement) ∧
        statement site.db = .ok (n, (serviceHandler oracle dbOracle op site).2.db) := by
  cases op with
  | inl op => exact Or.inl rfl
  | inr op =>
      cases op with
      | select q => exact Or.inl rfl
      | keys change => exact Or.inl rfl
      | execute statement =>
          cases hanswer : (serviceHandler oracle dbOracle (.inr (.execute statement)) site).1 with
          | ok n => exact Or.inr ⟨statement, n, rfl, applied_of_answer hanswer⟩
          | error error =>
              refine Or.inl ?_
              simp only [serviceHandler, Program.sumHandler, storeHandler, Site.db] at hanswer ⊢
              cases hfault : dbOracle site.2.tick with
              | some message => rfl
              | none =>
                  simp only [hfault, StoreCall.perform] at hanswer ⊢
                  cases hstatement : statement site.2.records.db with
                  | error error => rw [Db.execute_error hstatement]
                  | ok found =>
                      rw [Db.execute_ok hstatement] at hanswer
                      cases hanswer

end Call

section Interleaving

variable {ι : Type} [DecidableEq ι] (backend : Backend) (requests : ι → Request) (oracle : Nat → Choice)
  (dbOracle : Nat → Option String) (site : Site)

/-- The requests, and the site, after the turns of a schedule. -/
def interleave (schedule : List ι) : (ι → ServiceProgram Unit) × Site :=
  Pool.run (serviceHandler oracle dbOracle) schedule (fun i => (requests i).program backend) site

/-- The database after the turns of a schedule. -/
def dbAfter (schedule : List ι) : Db := (interleave backend requests oracle dbOracle site schedule).2.db

/-- Each event of the log is what a turn of this request has seen. -/
abbrev Recalls (schedule : List ι) (i : ι) (log : Log) : Prop :=
  Pool.Recalls (serviceHandler oracle dbOracle) (fun i => (requests i).program backend) site schedule i log

variable {backend requests oracle dbOracle site} {schedule before : List ι} {i j : ι} {log : Log}

theorem dbAfter_call {op : serviceSignature.Op} {next : serviceSignature.Answer op → ServiceProgram Unit}
    (hcall : (interleave backend requests oracle dbOracle site before).1 j = .call op next) :
    dbAfter backend requests oracle dbOracle site (before ++ [j]) =
      (serviceHandler oracle dbOracle op (interleave backend requests oracle dbOracle site before).2).2.db :=
  congrArg Site.db (Pool.run_call hcall)

theorem dbAfter_stopped (hstop : Pool.Stopped ((interleave backend requests oracle dbOracle site before).1 j)) :
    dbAfter backend requests oracle dbOracle site (before ++ [j]) =
      dbAfter backend requests oracle dbOracle site before :=
  congrArg (fun reached => reached.2.db) (Pool.run_stopped hstop)

variable (backend requests oracle dbOracle site) in
/-- After any schedule each request has a log of its own turns, and goes on as this log licenses. -/
theorem logs_along (schedule : List ι) : ∃ logs : ι → Log,
    (∀ i, Recalls backend requests oracle dbOracle site schedule i (logs i)) ∧
    ∀ i, Mediated (requests i) (logs i) ((interleave backend requests oracle dbOracle site schedule).1 i)
      fun _ log => (∃ name description, (requests i).operation = .createGroup name description) →
        Peopled (requests i) log := by
  obtain ⟨logs, ⟨hrecalls, -⟩, hmediated⟩ := Pool.recalled (I := fun _ _ => True)
    (fun i => request_mediated backend (requests i)) trivial (fun _ _ _ _ _ _ _ _ _ => trivial)
    (fun _ _ _ _ _ => trivial) schedule
  exact ⟨logs, hrecalls, hmediated⟩

/-- What a request has learned was so at one of its earlier turns. -/
theorem Recalls.learned {property : Db → Prop} (h : Recalls backend requests oracle dbOracle site schedule i log)
    (hlearned : Learned log property) :
    ∃ earlier later, schedule = earlier ++ i :: later ∧
      property (dbAfter backend requests oracle dbOracle site earlier) := by
  obtain ⟨event, hmem, α, q, value, rfl, hshows⟩ := hlearned
  obtain ⟨earlier, later, hschedule, hanswer, -⟩ := h _ hmem
  exact ⟨earlier, later, hschedule, hshows _ (value_of_answer hanswer.symm)⟩

/-- A statement that a request has made was carried out at one of its earlier turns. -/
theorem Recalls.executed {statement : Db → Db.Outcome} {n : Nat}
    (h : Recalls backend requests oracle dbOracle site schedule i log)
    (hmem : executed statement (.ok n) ∈ log) :
    ∃ earlier later, schedule = earlier ++ i :: later ∧
      statement (dbAfter backend requests oracle dbOracle site earlier) =
        .ok (n, dbAfter backend requests oracle dbOracle site (earlier ++ [i])) := by
  obtain ⟨earlier, later, hschedule, hanswer, hsite⟩ := h _ hmem
  refine ⟨earlier, later, hschedule, ?_⟩
  rw [dbAfter, dbAfter, interleave, interleave, hsite]
  exact applied_of_answer hanswer.symm

variable (backend requests oracle dbOracle site) in
/-- A turn leaves the database as it is, or carries out a statement that the turns before it have licensed. -/
theorem turn_cases (before : List ι) (j : ι) :
    dbAfter backend requests oracle dbOracle site (before ++ [j]) =
        dbAfter backend requests oracle dbOracle site before ∨
      ∃ log statement n, Recalls backend requests oracle dbOracle site before j log ∧
        Licensed (requests j) log (.inr (.execute statement)) ∧
        statement (dbAfter backend requests oracle dbOracle site before) =
          .ok (n, dbAfter backend requests oracle dbOracle site (before ++ [j])) := by
  obtain ⟨logs, hrecalls, hmediated⟩ := logs_along backend requests oracle dbOracle site before
  have hj := hmediated j
  cases hcase : (interleave backend requests oracle dbOracle site before).1 j with
  | call op next =>
      rw [hcase] at hj
      rw [dbAfter_call hcase]
      rcases db_after_call oracle dbOracle op (interleave backend requests oracle dbOracle site before).2 with
        hsame | ⟨statement, n, rfl, happlied⟩
      · exact Or.inl hsame
      · exact Or.inr ⟨logs j, statement, n, hrecalls j, hj.1, happlied⟩
  | done value => exact Or.inl (dbAfter_stopped (by simp [hcase, Pool.Stopped]))
  | fail error => exact Or.inl (dbAfter_stopped (by simp [hcase, Pool.Stopped]))

end Interleaving

/-! ### Rights -/

section Rights

variable {db db' : Db} {userId spaceId permission : String} {n : Nat}

/-- Whoever joins a group gets what the group is given; the others keep what they have. -/
theorem holds_of_join {row : GroupMember} (h : Db.insertMember row db = .ok (n, db'))
    (hholds : Holds db' userId spaceId permission) :
    Holds db userId spaceId permission ∨ row.userId = userId ∧ Given db "group" row.groupId spaceId permission := by
  obtain ⟨hkey, htables, -⟩ := Db.insertMember_ok h
  have hgiven : ∀ holderType holderId, Given db' holderType holderId spaceId permission →
      Given db holderType holderId spaceId permission := by
    intro holderType holderId hgiven
    simpa only [Given, htables] using hgiven
  rcases hholds with hown | ⟨m, hm, huser, hgroup⟩
  · exact Or.inl (Or.inl (hgiven _ _ hown))
  · simp only [htables] at hm
    rcases (Table.mem_insert (h := hkey)).mp hm with hold | rfl
    · exact Or.inl (Or.inr ⟨m, hold, huser, hgiven _ _ hgroup⟩)
    · exact Or.inr ⟨huser, hgiven _ _ hgroup⟩

/-- Why a request may put somebody into a group: its actor manages it, or has just founded it and joins it. -/
def Enrols (request : Request) (log : Log) (member : GroupMember) : Prop :=
  Learned log (Manages request.actor member.groupId) ∨
    ∃ (group : Group) (n : Nat), group.id = request.drawn.id ∧ group.createdBy = request.actor ∧
      executed (Db.insertGroup group) (.ok n) ∈ log ∧ Learned log (fun _ => member.groupId = request.drawn.id) ∧
      member.userId = request.actor

theorem fewer_deleteGroup {id : String} (h : Db.deleteGroup id db = .ok (n, db')) : Fewer db' db := by
  have htables := Db.deleteGroup_ok h
  refine ⟨same_spaces (by rw [htables]), by rw [htables]; exact fun _ hrow => hrow, ?_⟩
  rw [htables]
  exact fun row hrow => ⟨row, (Table.mem_deleteWhere.mp hrow).1, rfl, rfl⟩

theorem fewer_deleteMember {groupId memberId : String} (h : Db.deleteMember groupId memberId db = .ok (n, db')) :
    Fewer db' db := by
  have htables := Db.deleteMember_ok h
  refine ⟨same_spaces (by rw [htables]), by rw [htables]; exact fun _ hrow => hrow, ?_⟩
  rw [htables]
  exact fun row hrow => ⟨row, (Table.mem_deleteWhere.mp hrow).1, rfl, rfl⟩

theorem fewer_updateRole {groupId memberId role : String} (h : Db.updateRole groupId memberId role db = .ok (n, db')) :
    Fewer db' db := by
  have htables := Db.updateRole_ok h
  refine ⟨same_spaces (by rw [htables]), by rw [htables]; exact fun _ hrow => hrow, ?_⟩
  simp only [htables]
  intro row hrow
  rcases Table.mem_updateWhere hrow with hold | ⟨old, hold, -, rfl⟩
  · exact ⟨row, hold, rfl, rfl⟩
  · exact ⟨old, hold, rfl, rfl⟩

theorem fewer_updateSpace {id name : String} (h : Db.updateSpace id name db = .ok (n, db')) : Fewer db' db := by
  have htables := Db.updateSpace_ok h
  refine ⟨?_, by rw [htables]; exact fun _ hrow => hrow, same_members (by rw [htables])⟩
  simp only [htables]
  intro row hrow
  rcases Table.mem_updateWhere hrow with hold | ⟨old, hold, -, rfl⟩
  · exact ⟨row, hold, rfl, rfl, rfl⟩
  · exact ⟨old, hold, rfl, rfl, rfl⟩

theorem fewer_deleteSpace {id : String} (h : Db.deleteSpace id db = .ok (n, db')) : Fewer db' db := by
  have htables := Db.deleteSpace_ok h
  refine ⟨?_, ?_, same_members (by rw [htables])⟩
  · rw [htables]
    exact fun row hrow => ⟨row, (Table.mem_deleteWhere.mp hrow).1, rfl, rfl, rfl⟩
  · rw [htables]
    exact fun row hrow => (Table.mem_deleteWhere.mp hrow).1

theorem fewer_deleteAccess {granteeType granteeId : String}
    (h : Db.deleteAccess spaceId granteeType granteeId db = .ok (n, db')) : Fewer db' db := by
  have htables := Db.deleteAccess_ok h
  refine ⟨same_spaces (by rw [htables]), ?_, same_members (by rw [htables])⟩
  rw [htables]
  exact fun row hrow => (Table.mem_deleteWhere.mp hrow).1

/-- After a licensed statement a user holds on the old spaces what was held before, or the actor has learned to be an
administrator, or the user has just joined a group that is given it. -/
theorem Licensed.holds {request : Request} {log : Log} {statement : Db → Db.Outcome}
    (hlicence : Licensed request log (.inr (.execute statement))) (happlied : statement db = .ok (n, db'))
    (hspace : spaceId ∈ db.spaces.rows.map Space.id) (hholds : Holds db' userId spaceId permission) :
    Holds db userId spaceId permission ∨ Learned log (Administers request.actor spaceId) ∨
      ∃ member : GroupMember, member.userId = userId ∧ Given db "group" member.groupId spaceId permission ∧
        Db.insertMember member db = .ok (n, db') ∧ Enrols request log member := by
  have hjoin : ∀ {member : GroupMember}, Db.insertMember member db = .ok (n, db') → Enrols request log member →
      Holds db userId spaceId permission ∨ Learned log (Administers request.actor spaceId) ∨
        ∃ member : GroupMember, member.userId = userId ∧ Given db "group" member.groupId spaceId permission ∧
          Db.insertMember member db = .ok (n, db') ∧ Enrols request log member := by
    intro member hadd henrols
    rcases holds_of_join hadd hholds with hold | ⟨huser, hgiven⟩
    · exact Or.inl hold
    · exact Or.inr (Or.inr ⟨member, huser, hgiven, hadd, henrols⟩)
  cases hlicence with
  | other hleaves =>
      obtain ⟨-, hmembers, hspaces, haccess⟩ := hleaves _ _ _ happlied
      exact Or.inl (hholds.of_fewer (Fewer.of_same hspaces haccess hmembers))
  | found =>
      obtain ⟨_, htables, -⟩ := Db.insertGroup_ok happlied
      exact Or.inl (hholds.of_fewer (Fewer.of_same (by rw [htables]) (by rw [htables]) (by rw [htables])))
  | @own group readBack member m hid hcreator hmem hread hgroup huser hrole =>
      refine hjoin happlied (Or.inr ⟨group, m, hid, hcreator, hmem, hread.imp fun db hfound => ?_, huser⟩)
      have hsame : readBack.id = request.drawn.id := by simpa using List.find?_some hfound
      rw [hgroup, hsame]
  | enrol hmanages => exact hjoin happlied (Or.inl hmanages)
  | regroup =>
      have htables := Db.updateGroup_ok happlied
      exact Or.inl (hholds.of_fewer (Fewer.of_same (by rw [htables]) (by rw [htables]) (by rw [htables])))
  | dissolve => exact Or.inl (hholds.of_fewer (fewer_deleteGroup happlied))
  | expel => exact Or.inl (hholds.of_fewer (fewer_deleteMember happlied))
  | promote => exact Or.inl (hholds.of_fewer (fewer_updateRole happlied))
  | openSpace => exact Or.inl (holds_insertSpace happlied hspace hholds)
  | retract | close => exact Or.inl (hholds.of_fewer (fewer_deleteSpace happlied))
  | rename => exact Or.inl (hholds.of_fewer (fewer_updateSpace happlied))
  | grant hadmin =>
      rcases holds_insertAccess happlied hholds with hold | rfl
      · exact Or.inl hold
      · exact Or.inr (Or.inl hadmin)
  | revoke => exact Or.inl (hholds.of_fewer (fewer_deleteAccess happlied))
  | regrade hadmin =>
      rcases holds_updatePermission happlied hholds with hold | rfl
      · exact Or.inl hold
      · exact Or.inr (Or.inl hadmin)

end Rights

/-- What a user gains on a space while requests are interleaved, whatever fails, is either given by somebody who was an
administrator of the space at an earlier turn of the same request, or comes with a group that the user joins: then the
actor was its owner or a manager at such a turn, or founded it in the same request, at a turn before which the group
was not there. -/
theorem interleaved_rise_authorised {ι : Type} [DecidableEq ι] (backend : Backend) (requests : ι → Request)
    (oracle : Nat → Choice) (dbOracle : Nat → Option String) (site : Site) (before : List ι) (j : ι)
    (userId spaceId : String)
    (hspace : spaceId ∈ (dbAfter backend requests oracle dbOracle site before).spaces.rows.map Space.id)
    (hrise : effectiveLevel (dbAfter backend requests oracle dbOracle site before) userId spaceId <
      effectiveLevel (dbAfter backend requests oracle dbOracle site (before ++ [j])) userId spaceId) :
    (∃ earlier later, before = earlier ++ j :: later ∧
      Administers (requests j).actor spaceId (dbAfter backend requests oracle dbOracle site earlier)) ∨
    ∃ groupId permission,
      Given (dbAfter backend requests oracle dbOracle site before) "group" groupId spaceId permission ∧
      effectiveLevel (dbAfter backend requests oracle dbOracle site before) userId spaceId < permRank permission ∧
      (dbAfter backend requests oracle dbOracle site before).isMember groupId userId = false ∧
      (dbAfter backend requests oracle dbOracle site (before ++ [j])).isMember groupId userId = true ∧
      ∃ earlier later, before = earlier ++ j :: later ∧
        (Manages (requests j).actor groupId (dbAfter backend requests oracle dbOracle site earlier) ∨
          userId = (requests j).actor ∧
            groupId ∉ (dbAfter backend requests oracle dbOracle site earlier).groups.rows.map Group.id ∧
            FoundedBy (· = userId) groupId (dbAfter backend requests oracle dbOracle site (earlier ++ [j]))) := by
  have hgained : ∃ permission,
      Holds (dbAfter backend requests oracle dbOracle site (before ++ [j])) userId spaceId permission ∧
        effectiveLevel (dbAfter backend requests oracle dbOracle site before) userId spaceId < permRank permission := by
    by_contra hnone
    refine absurd (effectiveLevel_le_iff.mpr fun permission hholds => ?_) (not_le.mpr hrise)
    exact not_lt.mp fun hlt => hnone ⟨permission, hholds, hlt⟩
  obtain ⟨permission, hholds, hlevel⟩ := hgained
  have hnew : ¬ Holds (dbAfter backend requests oracle dbOracle site before) userId spaceId permission :=
    fun hold => absurd (permRank_le_effectiveLevel hold) (not_le.mpr hlevel)
  rcases turn_cases backend requests oracle dbOracle site before j with
    hsame | ⟨log, statement, n, hrecalls, hlicence, happlied⟩
  · rw [hsame] at hrise
    exact absurd hrise (lt_irrefl _)
  rcases hlicence.holds happlied hspace hholds with hold | hadmin | ⟨member, rfl, hgiven, hadd, henrols⟩
  · exact absurd hold hnew
  · exact Or.inl (hrecalls.learned hadmin)
  · refine Or.inr ⟨member.groupId, permission, hgiven, hlevel, ?_, ?_, ?_⟩
    · rw [Bool.eq_false_iff]
      intro hmember
      obtain ⟨m, hm, huser, hgroup⟩ := isMember_iff.mp hmember
      obtain ⟨hkey, -⟩ := Db.insertMember_ok hadd
      exact hkey (List.mem_map.mpr ⟨m, hm, by rw [GroupMember.key, GroupMember.key, huser, hgroup]⟩)
    · obtain ⟨hkey, htables, -⟩ := Db.insertMember_ok hadd
      refine isMember_iff.mpr ⟨member, ?_, rfl, rfl⟩
      rw [htables]
      exact (Table.mem_insert (h := hkey)).mpr (Or.inr rfl)
    · rcases henrols with hmanages | ⟨group, m, hid, hcreator, hmem, hread, huser⟩
      · obtain ⟨earlier, later, hbefore, hmanager⟩ := hrecalls.learned hmanages
        exact ⟨earlier, later, hbefore, Or.inl hmanager⟩
      · obtain ⟨earlier, later, hbefore, hinsert⟩ := hrecalls.executed hmem
        obtain ⟨-, -, -, hgroup⟩ := hrecalls.learned hread
        obtain ⟨hfresh, htables, -⟩ := Db.insertGroup_ok hinsert
        have hfounded : group.id = member.groupId := hid.trans hgroup.symm
        refine ⟨earlier, later, hbefore, Or.inr ⟨huser, hfounded ▸ hfresh, group, ?_, hfounded,
          hcreator.trans huser.symm⟩⟩
        rw [htables]
        exact (Table.mem_insert (h := hfresh)).mpr (Or.inr rfl)

/-- Alice lets Bob into her space while she founds a group. -/
def sampleConcurrent (founding : Bool) : Request :=
  if founding then sampleRequest "alice" "band" (.createGroup "Band" none) else sampleGrant

theorem interleaved_rise_authorised_grant :
    let db := dbAfter sampleBackend sampleConcurrent calmOracle (fun _ => none)
      (calmServeAll sampleBackend (firstSite ⟨.empty, 0⟩) sampleSharing)
    effectiveLevel (db [false, true, false]) "bob" "photos" = 0 ∧
      effectiveLevel (db [false, true, false, false]) "bob" "photos" = 2 ∧
      ((∃ earlier later, [false, true, false] = earlier ++ false :: later ∧
        Administers "alice" "photos" (db earlier)) ∨
      ∃ groupId permission, Given (db [false, true, false]) "group" groupId "photos" permission ∧
        effectiveLevel (db [false, true, false]) "bob" "photos" < permRank permission ∧
        (db [false, true, false]).isMember groupId "bob" = false ∧
        (db [false, true, false, false]).isMember groupId "bob" = true ∧
        ∃ earlier later, [false, true, false] = earlier ++ false :: later ∧
          (Manages "alice" groupId (db earlier) ∨
            "bob" = "alice" ∧ groupId ∉ (db earlier).groups.rows.map Group.id ∧
              FoundedBy (· = "bob") groupId (db (earlier ++ [false])))) :=
  ⟨by decide +kernel, by decide +kernel, interleaved_rise_authorised sampleBackend sampleConcurrent calmOracle
    (fun _ => none) (calmServeAll sampleBackend (firstSite ⟨.empty, 0⟩) sampleSharing) [false, true, false] false "bob"
    "photos" (by decide +kernel) (by decide +kernel)⟩

end IronDrive
