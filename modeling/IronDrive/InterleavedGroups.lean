import IronDrive.GroupOwnership
import IronDrive.InterleavedRights

/-! Who owns a group while requests are interleaved and any of their calls fail. The creator is put into the group by
a call of its own, and until then the group has no members: there is nobody who could put somebody else into it. -/

namespace IronDrive

open Lib GroupService

/-- What holds of the groups and their members; `had` are the groups that have had a member, `started` those whose
creation has begun. -/
structure Ruled (had started : String → Prop) (db : Db) : Prop where
  begun : ∀ group ∈ db.groups.rows, started group.id
  spent : ∀ groupId, had groupId → started groupId
  members : ∀ member ∈ db.members.rows, had member.groupId
  roles : ∀ member ∈ db.members.rows, ∀ group ∈ db.groups.rows, member.groupId = group.id →
    member.userId = group.createdBy ∧ member.role = roleOwner ∨
      member.userId ≠ group.createdBy ∧ (member.role = roleManager ∨ member.role = roleMember)
  owner : ∀ group ∈ db.groups.rows, had group.id →
    ∃ member ∈ db.members.rows, member.groupId = group.id ∧ member.userId = group.createdBy

section Statements

variable {had had' started started' : String → Prop} {db db' : Db} {n : Nat}

/-- The groups that have had a member after a step. -/
def Grows (had had' : String → Prop) (db' : Db) : Prop :=
  ∀ groupId, had' groupId ↔ had groupId ∨ ∃ member ∈ db'.members.rows, member.groupId = groupId

/-- Where the members are among the old ones, no group has had its first member. -/
theorem Ruled.had_of_grows (h : Ruled had started db) (hgrows : Grows had had' db')
    (hmembers : ∀ member ∈ db'.members.rows, ∃ old ∈ db.members.rows, old.groupId = member.groupId) {groupId : String}
    (hhad : had' groupId) : had groupId := by
  rcases (hgrows groupId).mp hhad with hold | ⟨member, hmember, rfl⟩
  · exact hold
  · obtain ⟨old, hmem, hgroup⟩ := hmembers member hmember
    exact hgroup ▸ h.members old hmem

theorem Ruled.had_of_same (h : Ruled had started db) (hgrows : Grows had had' db') (hmembers : db'.members = db.members)
    {groupId : String} : had' groupId → had groupId :=
  h.had_of_grows hgrows fun member hmember => ⟨member, hmembers ▸ hmember, rfl⟩

theorem Ruled.had_members (hgrows : Grows had had' db') : ∀ member ∈ db'.members.rows, had' member.groupId :=
  fun member hmember => (hgrows _).mpr (Or.inr ⟨member, hmember, rfl⟩)

/-- A statement that keeps the members, and the groups up to their names. -/
theorem Ruled.of_same (h : Ruled had started db) (hgrows : Grows had had' db')
    (hstarted : ∀ groupId, started groupId → started' groupId) (hmembers : db'.members = db.members)
    (hgroups : ∀ group ∈ db'.groups.rows, ∃ old ∈ db.groups.rows,
      old.id = group.id ∧ old.createdBy = group.createdBy) : Ruled had' started' db' := by
  have hold : ∀ {groupId}, had' groupId → had groupId := h.had_of_same hgrows hmembers
  constructor
  · intro group hgroup
    obtain ⟨old, hmem, hid, -⟩ := hgroups group hgroup
    exact hstarted _ (hid ▸ h.begun old hmem)
  · exact fun groupId hhad => hstarted _ (h.spent _ (hold hhad))
  · exact Ruled.had_members hgrows
  · intro member hmember group hgroup hof
    obtain ⟨old, hmem, hid, hcreator⟩ := hgroups group hgroup
    rw [← hcreator]
    exact h.roles member (hmembers ▸ hmember) old hmem (hof.trans hid.symm)
  · intro group hgroup hhad
    obtain ⟨old, hmem, hid, hcreator⟩ := hgroups group hgroup
    rw [hmembers, ← hid, ← hcreator]
    exact h.owner old hmem (hold (hid ▸ hhad))

theorem Ruled.unchanged (h : Ruled had started db) (hgrows : Grows had had' db')
    (hstarted : ∀ groupId, started groupId → started' groupId) (hmembers : db'.members = db.members)
    (hgroups : db'.groups = db.groups) : Ruled had' started' db' :=
  h.of_same hgrows hstarted hmembers fun group hgroup => ⟨group, hgroups ▸ hgroup, rfl, rfl⟩

/-- A new group has no members yet. -/
theorem Ruled.insertGroup (h : Ruled had started db) (hgrows : Grows had had' db')
    (hstarted : ∀ groupId, started groupId → started' groupId) {group : Group}
    (hinsert : Db.insertGroup group db = .ok (n, db')) (hnew : ¬ started group.id) (hnow : started' group.id) :
    Ruled had' started' db' := by
  obtain ⟨hid, htables, -⟩ := Db.insertGroup_ok hinsert
  have hmembers : db'.members = db.members := by rw [htables]
  have hgroups : ∀ row ∈ db'.groups.rows, row ∈ db.groups.rows ∨ row = group := by
    rw [htables]
    exact fun row hrow => (Table.mem_insert (h := hid)).mp hrow
  have hold : ∀ {groupId}, had' groupId → had groupId := h.had_of_same hgrows hmembers
  constructor
  · intro row hrow
    rcases hgroups row hrow with hin | rfl
    · exact hstarted _ (h.begun row hin)
    · exact hnow
  · exact fun groupId hhad => hstarted _ (h.spent _ (hold hhad))
  · exact Ruled.had_members hgrows
  · intro member hmember row hrow hof
    rw [hmembers] at hmember
    rcases hgroups row hrow with hin | rfl
    · exact h.roles member hmember row hin hof
    · exact absurd (h.spent _ (h.members member hmember)) (hof ▸ hnew)
  · intro row hrow hhad
    rw [hmembers]
    rcases hgroups row hrow with hin | rfl
    · exact h.owner row hin (hold hhad)
    · exact absurd (h.spent _ (hold hhad)) hnew

/-- A new member whose role is right. -/
theorem Ruled.insertMember (h : Ruled had started db) (hgrows : Grows had had' db')
    (hstarted : ∀ groupId, started groupId → started' groupId) {member : GroupMember}
    (hinsert : Db.insertMember member db = .ok (n, db'))
    (hrole : ∀ group ∈ db.groups.rows, member.groupId = group.id →
      member.userId = group.createdBy ∧ member.role = roleOwner ∨
        had member.groupId ∧ (member.role = roleManager ∨ member.role = roleMember)) : Ruled had' started' db' := by
  obtain ⟨hkey, htables, hthere⟩ := Db.insertMember_ok hinsert
  have hgroups : db'.groups = db.groups := by rw [htables]
  have hmembers : ∀ row, row ∈ db'.members.rows ↔ row ∈ db.members.rows ∨ row = member := by
    intro row
    rw [htables]
    exact Table.mem_insert (h := hkey)
  constructor
  · rw [hgroups]
    exact fun group hgroup => hstarted _ (h.begun group hgroup)
  · intro groupId hhad
    rcases (hgrows groupId).mp hhad with hold | ⟨row, hrow, rfl⟩
    · exact hstarted _ (h.spent _ hold)
    · rcases (hmembers row).mp hrow with hin | rfl
      · exact hstarted _ (h.spent _ (h.members row hin))
      · obtain ⟨group, hgroup, hid⟩ := List.mem_map.mp hthere
        exact hstarted _ (hid ▸ h.begun group hgroup)
  · exact Ruled.had_members hgrows
  · intro row hrow group hgroup hof
    rw [hgroups] at hgroup
    rcases (hmembers row).mp hrow with hin | rfl
    · exact h.roles row hin group hgroup hof
    · rcases hrole group hgroup hof with howner | ⟨hhad, hother⟩
      · exact Or.inl howner
      · -- The creator is a member already.
        obtain ⟨owner, howner, howns, huser⟩ := h.owner group hgroup (hof ▸ hhad)
        refine Or.inr ⟨fun heq => hkey (List.mem_map.mpr ⟨owner, howner, ?_⟩), hother⟩
        rw [GroupMember.key, GroupMember.key, howns, huser, hof, heq]
  · intro group hgroup hhad
    rw [hgroups] at hgroup
    have hcase : had group.id ∨ member.groupId = group.id := by
      rcases (hgrows group.id).mp hhad with hold | ⟨row, hrow, hof⟩
      · exact Or.inl hold
      · rcases (hmembers row).mp hrow with hin | rfl
        · exact Or.inl (hof ▸ h.members row hin)
        · exact Or.inr hof
    have hown : had group.id → ∃ row ∈ db'.members.rows, row.groupId = group.id ∧ row.userId = group.createdBy := by
      intro hold
      obtain ⟨owner, howner, hfacts⟩ := h.owner group hgroup hold
      exact ⟨owner, (hmembers owner).mpr (Or.inl howner), hfacts⟩
    rcases hcase with hold | hof
    · exact hown hold
    · rcases hrole group hgroup hof with ⟨huser, -⟩ | ⟨hold, -⟩
      · exact ⟨member, (hmembers member).mpr (Or.inr rfl), hof, huser⟩
      · exact hown (hof ▸ hold)

/-- Some members leave, but no creator of a group that stays. -/
theorem Ruled.leave (h : Ruled had started db) (hgrows : Grows had had' db')
    (hstarted : ∀ groupId, started groupId → started' groupId)
    (hgroups : ∀ group ∈ db'.groups.rows, group ∈ db.groups.rows)
    (hmembers : ∀ member ∈ db'.members.rows, member ∈ db.members.rows)
    (hstay : ∀ group ∈ db'.groups.rows, ∀ member ∈ db.members.rows, member.groupId = group.id →
      member.userId = group.createdBy → member ∈ db'.members.rows) : Ruled had' started' db' := by
  have hold : ∀ {groupId}, had' groupId → had groupId := fun hhad =>
    h.had_of_grows hgrows (fun member hmember => ⟨member, hmembers member hmember, rfl⟩) hhad
  constructor
  · exact fun group hgroup => hstarted _ (h.begun group (hgroups group hgroup))
  · exact fun groupId hhad => hstarted _ (h.spent _ (hold hhad))
  · exact Ruled.had_members hgrows
  · exact fun member hmember group hgroup => h.roles member (hmembers member hmember) group (hgroups group hgroup)
  · intro group hgroup hhad
    obtain ⟨owner, howner, hof, huser⟩ := h.owner group (hgroups group hgroup) (hold hhad)
    exact ⟨owner, hstay group hgroup owner howner hof huser, hof, huser⟩

/-- A member who is no creator gets another role. -/
theorem Ruled.updateRole (h : Ruled had started db) (hgrows : Grows had had' db')
    (hstarted : ∀ groupId, started groupId → started' groupId) {groupId userId role : String}
    (hupdate : Db.updateRole groupId userId role db = .ok (n, db'))
    (hcreator : ∀ group ∈ db.groups.rows, group.id = groupId → userId ≠ group.createdBy)
    (hrole : role = roleManager ∨ role = roleMember) : Ruled had' started' db' := by
  have htables := Db.updateRole_ok hupdate
  have hgroups : db'.groups = db.groups := by rw [htables]
  have hmembers : ∀ member ∈ db'.members.rows, member ∈ db.members.rows ∨
      ∃ old ∈ db.members.rows, old.key = (groupId, userId) ∧ member = { old with role := role } := by
    simp only [htables]
    intro member hmember
    rcases Table.mem_updateWhere hmember with hin | ⟨old, hin, hkey, rfl⟩
    · exact Or.inl hin
    · exact Or.inr ⟨old, hin, of_decide_eq_true hkey, rfl⟩
  have hold : ∀ {groupId}, had' groupId → had groupId := by
    refine fun hhad => h.had_of_grows hgrows (fun member hmember => ?_) hhad
    rcases hmembers member hmember with hin | ⟨old, hin, -, rfl⟩
    · exact ⟨member, hin, rfl⟩
    · exact ⟨old, hin, rfl⟩
  constructor
  · rw [hgroups]
    exact fun group hgroup => hstarted _ (h.begun group hgroup)
  · exact fun groupId hhad => hstarted _ (h.spent _ (hold hhad))
  · exact Ruled.had_members hgrows
  · intro member hmember group hgroup hof
    rw [hgroups] at hgroup
    rcases hmembers member hmember with hin | ⟨old, hin, hkey, rfl⟩
    · exact h.roles member hin group hgroup hof
    · obtain ⟨hgroupId, huser⟩ := Prod.mk.inj hkey
      refine Or.inr ⟨?_, hrole⟩
      show old.userId ≠ group.createdBy
      rw [huser]
      exact hcreator group hgroup (hof.symm.trans hgroupId)
  · rw [hgroups]
    intro group hgroup hhad
    obtain ⟨owner, howner, hof, huser⟩ := h.owner group hgroup (hold hhad)
    have hother : decide (owner.key = (groupId, userId)) = false := by
      refine decide_eq_false fun hkey => ?_
      obtain ⟨hgroupId, hmember⟩ := Prod.mk.inj hkey
      exact hcreator group hgroup (hof.symm.trans hgroupId) (hmember.symm.trans huser)
    refine ⟨owner, ?_, hof, huser⟩
    simp only [htables]
    exact Table.mem_updateWhere_of_not howner hother

end Statements

/-! ### Every schedule -/

section Schedules

variable {ι : Type} [DecidableEq ι] {backend : Backend} {requests : ι → Request} {oracle : Nat → Choice}
  {dbOracle : Nat → Option String} {disk : Disk} {schedule before : List ι}

/-- The groups are those of requests, each with the actor as its creator. -/
theorem Licensed.founders {request : Request} {log : Log} {statement : Db → Db.Outcome} {db db' : Db} {n : Nat}
    (hlicence : Licensed request log (.inr (.execute statement))) (happlied : statement db = .ok (n, db')) :
    ∀ group ∈ db'.groups.rows, (∃ old ∈ db.groups.rows, old.id = group.id ∧ old.createdBy = group.createdBy) ∨
      group.id = request.drawn.id ∧ group.createdBy = request.actor := by
  have hsame : db'.groups = db.groups → ∀ group ∈ db'.groups.rows,
      (∃ old ∈ db.groups.rows, old.id = group.id ∧ old.createdBy = group.createdBy) ∨
        group.id = request.drawn.id ∧ group.createdBy = request.actor := by
    intro heq group hgroup
    exact Or.inl ⟨group, heq ▸ hgroup, rfl, rfl⟩
  cases hlicence with
  | other hleaves => exact hsame (hleaves _ _ _ happlied).1
  | found hid hcreator =>
      obtain ⟨hfresh, htables, -⟩ := Db.insertGroup_ok happlied
      rw [htables]
      intro row hrow
      rcases (Table.mem_insert (h := hfresh)).mp hrow with hin | rfl
      · exact Or.inl ⟨row, hin, rfl, rfl⟩
      · exact Or.inr ⟨hid, hcreator⟩
  | own | enrol =>
      obtain ⟨_, htables, -⟩ := Db.insertMember_ok happlied
      exact hsame (by rw [htables])
  | regroup =>
      simp only [Db.updateGroup_ok happlied]
      intro row hrow
      rcases Table.mem_updateWhere hrow with hin | ⟨old, hin, -, rfl⟩
      · exact Or.inl ⟨row, hin, rfl, rfl⟩
      · exact Or.inl ⟨old, hin, rfl, rfl⟩
  | dissolve =>
      rw [Db.deleteGroup_ok happlied]
      exact fun row hrow => Or.inl ⟨row, (Table.mem_deleteWhere.mp hrow).1, rfl, rfl⟩
  | expel => exact hsame (by rw [Db.deleteMember_ok happlied])
  | promote => exact hsame (by rw [Db.updateRole_ok happlied])
  | openSpace =>
      obtain ⟨_, htables⟩ := Db.insertSpace_ok happlied
      exact hsame (by rw [htables])
  | retract | close => exact hsame (by rw [Db.deleteSpace_ok happlied])
  | rename => exact hsame (by rw [Db.updateSpace_ok happlied])
  | grant =>
      obtain ⟨_, htables⟩ := Db.insertAccess_ok happlied
      exact hsame (by rw [htables])
  | revoke => exact hsame (by rw [Db.deleteAccess_ok happlied])
  | regrade => exact hsame (by rw [Db.updatePermission_ok happlied])

theorem founders_along (schedule : List ι) :
    ∀ group ∈ (dbAfter backend requests oracle dbOracle (firstSite disk) schedule).groups.rows,
      ∃ i, group.id = (requests i).drawn.id ∧ group.createdBy = (requests i).actor := by
  induction schedule using List.reverseRecOn with
  | nil =>
      intro group hgroup
      cases hgroup
  | append_singleton before j ih =>
      intro group hgroup
      rcases turn_cases backend requests oracle dbOracle (firstSite disk) before j with
        hsame | ⟨log, statement, n, -, hlicence, happlied⟩
      · exact ih group (hsame ▸ hgroup)
      · rcases hlicence.founders happlied group hgroup with ⟨old, hold, hid, hcreator⟩ | hown
        · rw [← hid, ← hcreator]
          exact ih old hold
        · exact ⟨j, hown⟩

/-- A group has the same creator whenever it is there. -/
theorem creator_unique (hfresh : Function.Injective fun i => (requests i).drawn.id) {left right : List ι}
    {group other : Group}
    (hgroup : group ∈ (dbAfter backend requests oracle dbOracle (firstSite disk) left).groups.rows)
    (hother : other ∈ (dbAfter backend requests oracle dbOracle (firstSite disk) right).groups.rows)
    (hid : group.id = other.id) : group.createdBy = other.createdBy := by
  obtain ⟨i, hi, hcreator⟩ := founders_along left group hgroup
  obtain ⟨k, hk, hcreator'⟩ := founders_along right other hother
  obtain rfl : i = k := hfresh (hi.symm.trans (hid.trans hk))
  rw [hcreator, hcreator']

variable (backend requests oracle dbOracle disk) in
/-- The group has had a member. -/
def HasHad (schedule : List ι) (groupId : String) : Prop :=
  ∃ earlier later, schedule = earlier ++ later ∧
    ∃ member ∈ (dbAfter backend requests oracle dbOracle (firstSite disk) earlier).members.rows,
      member.groupId = groupId

variable (backend requests oracle dbOracle disk) in
theorem grows_snoc (before : List ι) (j : ι) :
    Grows (HasHad backend requests oracle dbOracle disk before)
      (HasHad backend requests oracle dbOracle disk (before ++ [j]))
      (dbAfter backend requests oracle dbOracle (firstSite disk) (before ++ [j])) := by
  intro groupId
  constructor
  · rintro ⟨earlier, later, hsplit, hmember⟩
    rcases List.eq_nil_or_concat later with rfl | ⟨rest, last, rfl⟩
    · rw [List.append_nil] at hsplit
      exact Or.inr (hsplit ▸ hmember)
    · rw [List.concat_eq_append, ← List.append_assoc] at hsplit
      exact Or.inl ⟨earlier, rest, (List.append_inj' hsplit rfl).1, hmember⟩
  · rintro (⟨earlier, later, rfl, hmember⟩ | hmember)
    · exact ⟨earlier, later ++ [j], by simp, hmember⟩
    · exact ⟨before ++ [j], [], by simp, hmember⟩

/-- The creation of the group has begun. -/
def Started (requests : ι → Request) (logs : ι → Log) (groupId : String) : Prop :=
  ∃ i, (requests i).drawn.id = groupId ∧ Executed (logs i)

/-- The step: a licensed statement. -/
theorem Licensed.ruled (hfresh : Function.Injective fun i => (requests i).drawn.id) {j : ι} {log : Log}
    {started started' : String → Prop} {statement : Db → Db.Outcome} {n : Nat}
    (hlicence : Licensed (requests j) log (.inr (.execute statement)))
    (hrecalls : Recalls backend requests oracle dbOracle (firstSite disk) before j log)
    (happlied : statement (dbAfter backend requests oracle dbOracle (firstSite disk) before) =
      .ok (n, dbAfter backend requests oracle dbOracle (firstSite disk) (before ++ [j])))
    (hruled : Ruled (HasHad backend requests oracle dbOracle disk before) started
      (dbAfter backend requests oracle dbOracle (firstSite disk) before))
    (hstarted : ∀ groupId, started groupId → started' groupId) (hnow : started' (requests j).drawn.id)
    (hfirst : ¬ Executed log → ¬ started (requests j).drawn.id) :
    Ruled (HasHad backend requests oracle dbOracle disk (before ++ [j])) started'
      (dbAfter backend requests oracle dbOracle (firstSite disk) (before ++ [j])) := by
  have hgrows := grows_snoc backend requests oracle dbOracle disk before j
  have hsame := hruled.unchanged hgrows hstarted
  cases hlicence with
  | other hleaves =>
      obtain ⟨hgroups, hmembers, -⟩ := hleaves _ _ _ happlied
      exact hsame hmembers hgroups
  | found hid hcreator hlog =>
      exact hruled.insertGroup hgrows hstarted happlied (by rw [hid]; exact hfirst hlog) (by rw [hid]; exact hnow)
  | @own group readBack member m hid hcreator hmem hread hof huser hrole =>
      refine hruled.insertMember hgrows hstarted happlied fun row hrow hgroup => Or.inl ⟨?_, hrole⟩
      obtain ⟨_, _, _, hfound⟩ := hrecalls.learned hread
      have hown : readBack.id = (requests j).drawn.id := by simpa using List.find?_some hfound
      obtain ⟨i, hi, hfounder⟩ := founders_along before row hrow
      obtain rfl : i = j := hfresh (hi.symm.trans (hgroup.symm.trans (hof.trans hown)))
      rw [huser, hfounder]
  | enrol hmanages hrole =>
      obtain ⟨earlier, later, hbefore, manager, hmanager, hof, -⟩ := hrecalls.learned hmanages
      exact hruled.insertMember hgrows hstarted happlied fun row hrow hgroup =>
        Or.inr ⟨⟨earlier, j :: later, hbefore, manager, hmanager, hof⟩, hrole⟩
  | regroup =>
      have htables := Db.updateGroup_ok happlied
      refine hruled.of_same hgrows hstarted (by rw [htables]) ?_
      simp only [htables]
      intro row hrow
      rcases Table.mem_updateWhere hrow with hin | ⟨old, hin, -, rfl⟩
      · exact ⟨row, hin, rfl, rfl⟩
      · exact ⟨old, hin, rfl, rfl⟩
  | @dissolve groupId =>
      have htables := Db.deleteGroup_ok happlied
      refine hruled.leave hgrows hstarted ?_ ?_ ?_ <;> simp only [htables]
      · exact fun row hrow => (Table.mem_deleteWhere.mp hrow).1
      · exact fun row hrow => (Table.mem_deleteWhere.mp hrow).1
      · intro group hgroup member hmember hof _
        refine Table.mem_deleteWhere.mpr ⟨hmember, ?_⟩
        rw [hof]
        exact (Table.mem_deleteWhere.mp hgroup).2
  | @expel groupId userId hfounded =>
      have htables := Db.deleteMember_ok happlied
      obtain ⟨earlier, later, -, founded, hthere, hid, hcreator⟩ := hrecalls.learned hfounded
      refine hruled.leave hgrows hstarted ?_ ?_ ?_ <;> simp only [htables]
      · exact fun row hrow => hrow
      · exact fun row hrow => (Table.mem_deleteWhere.mp hrow).1
      · intro group hgroup member hmember hof huser
        refine Table.mem_deleteWhere.mpr ⟨hmember, decide_eq_false fun hkey => ?_⟩
        obtain ⟨hgroupId, hmemberId⟩ := Prod.mk.inj hkey
        have hunique := creator_unique hfresh hthere hgroup (hid.trans (hgroupId.symm.trans hof))
        exact hcreator (hunique.trans (huser.symm.trans hmemberId))
  | promote hfounded hrole =>
      obtain ⟨earlier, later, -, founded, hthere, hid, -, hother⟩ := hrecalls.learned hfounded
      refine hruled.updateRole hgrows hstarted happlied (fun group hgroup hgroupId => ?_) hrole
      rw [← creator_unique hfresh hthere hgroup (hid.trans hgroupId.symm)]
      exact hother
  | openSpace =>
      obtain ⟨_, htables⟩ := Db.insertSpace_ok happlied
      exact hsame (by rw [htables]) (by rw [htables])
  | retract | close => exact hsame (by rw [Db.deleteSpace_ok happlied]) (by rw [Db.deleteSpace_ok happlied])
  | rename => exact hsame (by rw [Db.updateSpace_ok happlied]) (by rw [Db.updateSpace_ok happlied])
  | grant =>
      obtain ⟨_, htables⟩ := Db.insertAccess_ok happlied
      exact hsame (by rw [htables]) (by rw [htables])
  | revoke => exact hsame (by rw [Db.deleteAccess_ok happlied]) (by rw [Db.deleteAccess_ok happlied])
  | regrade => exact hsame (by rw [Db.updatePermission_ok happlied]) (by rw [Db.updatePermission_ok happlied])

theorem started_update {logs : ι → Log} {j : ι} (event : Event serviceSignature) {groupId : String}
    (h : Started requests logs groupId) : Started requests (Function.update logs j (logs j ++ [event])) groupId := by
  obtain ⟨i, hid, hexecuted⟩ := h
  refine ⟨i, hid, ?_⟩
  by_cases hij : i = j
  · subst hij
    rw [Function.update_self]
    exact hexecuted.mono (List.prefix_append _ _)
  · rw [Function.update_of_ne hij]
    exact hexecuted

/-- The run: the rules hold after any schedule. -/
theorem ruled_along (backend : Backend) (oracle : Nat → Choice) (dbOracle : Nat → Option String) (disk : Disk)
    (hfresh : Function.Injective fun i => (requests i).drawn.id) (schedule : List ι) : ∃ logs : ι → Log,
    ((∀ i, Recalls backend requests oracle dbOracle (firstSite disk) schedule i (logs i)) ∧
      Ruled (HasHad backend requests oracle dbOracle disk schedule) (Started requests logs)
        (dbAfter backend requests oracle dbOracle (firstSite disk) schedule)) ∧
    ∀ i, Mediated (requests i) (logs i) ((interleave backend requests oracle dbOracle (firstSite disk) schedule).1 i)
      fun _ log => (∃ name description, (requests i).operation = .createGroup name description) →
        Peopled (requests i) log := by
  refine Pool.recalled (I := fun schedule logs => Ruled (HasHad backend requests oracle dbOracle disk schedule)
    (Started requests logs) (dbAfter backend requests oracle dbOracle (firstSite disk) schedule))
    (fun i => request_mediated backend (requests i)) ?_ ?_ ?_ schedule
  · have hnone : ∀ groupId, ¬ HasHad backend requests oracle dbOracle disk [] groupId := by
      intro groupId hhad
      obtain ⟨earlier, later, hsplit, member, hmember, -⟩ := hhad
      rw [(List.append_eq_nil_iff.mp hsplit.symm).1] at hmember
      cases hmember
    exact ⟨fun group hgroup => absurd hgroup List.not_mem_nil, fun groupId hhad => absurd hhad (hnone groupId),
      fun member hmember => absurd hmember List.not_mem_nil, fun member hmember => absurd hmember List.not_mem_nil,
      fun group hgroup => absurd hgroup List.not_mem_nil⟩
  · intro before j op next logs hcall hlicence hrecalls hruled
    have hafter := dbAfter_call hcall
    rcases db_after_call oracle dbOracle op (interleave backend requests oracle dbOracle (firstSite disk) before).2 with
      hsame | ⟨statement, n, rfl, happlied⟩
    · have hdb : dbAfter backend requests oracle dbOracle (firstSite disk) (before ++ [j]) =
          dbAfter backend requests oracle dbOracle (firstSite disk) before := hafter.trans hsame
      exact hruled.unchanged (grows_snoc backend requests oracle dbOracle disk before j)
        (fun _ => started_update _) (by rw [hdb]) (by rw [hdb])
    · have hstatement : statement (dbAfter backend requests oracle dbOracle (firstSite disk) before) =
          .ok (n, dbAfter backend requests oracle dbOracle (firstSite disk) (before ++ [j])) := by
        rw [hafter]
        exact happlied
      refine hlicence.ruled hfresh (hrecalls j) hstatement hruled (fun _ => started_update _) ?_ ?_
      · refine ⟨j, rfl, statement, (serviceHandler oracle dbOracle (.inr (.execute statement))
          (interleave backend requests oracle dbOracle (firstSite disk) before).2).1, ?_⟩
        rw [Function.update_self]
        exact List.mem_append_right _ (List.mem_singleton_self _)
      · intro hnone hstarted
        obtain ⟨i, hid, hexecuted⟩ := hstarted
        obtain rfl : i = j := hfresh hid
        exact hnone hexecuted
  · intro before j logs hstop hruled
    have hdb : dbAfter backend requests oracle dbOracle (firstSite disk) (before ++ [j]) =
        dbAfter backend requests oracle dbOracle (firstSite disk) before := dbAfter_stopped hstop
    exact hruled.unchanged (grows_snoc backend requests oracle dbOracle disk before j) (fun _ h => h) (by rw [hdb])
      (by rw [hdb])

end Schedules

/-- The one owner of a group, if its creator is in it. -/
theorem Ruled.unique_owner {had started : String → Prop} {db : Db} (h : Ruled had started db) {group : Group}
    (hgroup : group ∈ db.groups.rows) (hhad : had group.id) :
    ∃! member, member ∈ db.members.rows ∧ member.groupId = group.id ∧ member.role = roleOwner := by
  obtain ⟨owner, howner, hof, huser⟩ := h.owner group hgroup hhad
  have hrole : owner.role = roleOwner := by
    rcases h.roles owner howner group hgroup hof with ⟨-, hrole⟩ | ⟨hne, -⟩
    · exact hrole
    · exact absurd huser hne
  refine ⟨owner, ⟨howner, hof, hrole⟩, fun member hmember => ?_⟩
  obtain ⟨hmem, hmemberOf, hmemberRole⟩ := hmember
  apply List.inj_on_of_nodup_map db.members.nodup hmem howner
  rcases h.roles member hmem group hgroup hmemberOf with ⟨hmemberUser, -⟩ | ⟨-, hother⟩
  · rw [GroupMember.key, GroupMember.key, hmemberOf, hof, hmemberUser, huser]
  · rw [hmemberRole] at hother
    exact absurd hother (by decide)

/-- Any number of requests may run at the same time and any of their calls may fail: at every moment an owner of a group
is its creator and everybody else in it a manager or a plain member, and a group that has members, or whose creation has
been answered, has exactly one owner. -/
theorem interleaved_group_ownership {ι : Type} [DecidableEq ι] (backend : Backend) (requests : ι → Request)
    (oracle : Nat → Choice) (dbOracle : Nat → Option String) (disk : Disk)
    (hfresh : Function.Injective fun i => (requests i).drawn.id) (schedule : List ι) (group : Group)
    (hgroup : group ∈ (dbAfter backend requests oracle dbOracle (firstSite disk) schedule).groups.rows) :
    let db := dbAfter backend requests oracle dbOracle (firstSite disk) schedule
    (∀ member ∈ db.members.rows, member.groupId = group.id →
      member.userId = group.createdBy ∧ member.role = roleOwner ∨
        member.userId ≠ group.createdBy ∧ (member.role = roleManager ∨ member.role = roleMember)) ∧
    ((∃ member ∈ db.members.rows, member.groupId = group.id) ∨
        (∃ i name description, (requests i).drawn.id = group.id ∧
          (requests i).operation = .createGroup name description ∧
          (interleave backend requests oracle dbOracle (firstSite disk) schedule).1 i = .done ()) →
      ∃! member, member ∈ db.members.rows ∧ member.groupId = group.id ∧ member.role = roleOwner) := by
  obtain ⟨logs, ⟨hrecalls, hruled⟩, hmediated⟩ := ruled_along backend oracle dbOracle disk hfresh schedule
  refine ⟨fun member hmember => hruled.roles member hmember group hgroup, fun hwhen => hruled.unique_owner hgroup ?_⟩
  rcases hwhen with ⟨member, hmember, hof⟩ | ⟨i, name, description, hid, hoperation, hdone⟩
  · exact hof ▸ hruled.members member hmember
  · have hanswered := hmediated i
    rw [hdone] at hanswered
    obtain ⟨readBack, hfound, hmember⟩ := hanswered () rfl ⟨name, description, hoperation⟩
    obtain ⟨_, _, _, hread⟩ := (hrecalls i).learned hfound
    obtain ⟨earlier, later, hsplit, member, hmem, hof⟩ := (hrecalls i).learned hmember
    have hsame : readBack.id = (requests i).drawn.id := by simpa using List.find?_some hread
    exact ⟨earlier, i :: later, hsplit, member, hmem, hof.trans (hsame.trans hid)⟩

/-- Alice and Bob register, and each founds a group of the same name. -/
def sampleFounders : Bool × Bool → Request
  | (false, false) => sampleRequest "" "alice" (.register [] "alice" "alice@example.com" "password")
  | (false, true) => sampleRequest "" "bob" (.register [] "bob" "bob@example.com" "password")
  | (true, false) => sampleRequest "alice" "band" (.createGroup "Band" none)
  | (true, true) => sampleRequest "bob" "rivals" (.createGroup "Band" none)

theorem sampleFounders_fresh : Function.Injective fun i => (sampleFounders i).drawn.id := by
  have hall : ∀ a b c d : Bool, (sampleFounders (a, b)).drawn.id = (sampleFounders (c, d)).drawn.id →
      (a, b) = (c, d) := by decide
  exact fun left right heq => hall left.1 left.2 right.1 right.2 heq

/-- Their calls alternate. -/
def foundersTurns : List (Bool × Bool) :=
  (List.replicate 6 [(false, false), (false, true)] ++ List.replicate 5 [(true, false), (true, true)]).flatten

theorem interleaved_group_ownership_band :
    let db := dbAfter sampleBackend sampleFounders calmOracle (fun _ => none) (firstSite ⟨.empty, 0⟩) foundersTurns
    db.groups.rows.map (fun group => (group.id, group.createdBy)) = [("band", "alice")] ∧
    (∀ member ∈ db.members.rows, member.groupId = "band" →
      member.userId = "alice" ∧ member.role = roleOwner ∨
        member.userId ≠ "alice" ∧ (member.role = roleManager ∨ member.role = roleMember)) ∧
    ∃! member, member ∈ db.members.rows ∧ member.groupId = "band" ∧ member.role = roleOwner :=
  have hband := interleaved_group_ownership sampleBackend sampleFounders calmOracle (fun _ => none) ⟨.empty, 0⟩
    sampleFounders_fresh foundersTurns ⟨"band", "Band", none, "alice", (sampleDrawn "band").now⟩ (by decide +kernel)
  ⟨by decide +kernel, hband.1, hband.2 (Or.inl (by decide +kernel))⟩

end IronDrive
