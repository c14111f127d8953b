import IronDrive.UploadRequests
import IronDrive.EntryRefusals
import IronDrive.DownloadTokens
import IronDrive.ChunkPlan
import IronDrive.StagingLeaks

/-! A chunked upload from the page to the stored file. The server makes the calls of the requests that were sent in any
order, every call may fail, and every answer may be lost; the page sends chunks again, or gives up. Until it gives up,
every chunk is at a worker or in its file, so what is stored when the page reports success is the file it was given. -/

namespace IronDrive

open Lib FileTree PathSafety CryptoService FsService ChunkService

namespace UploadClient

variable {client : UploadClient} {stored : Nat → Prop} {k i a : Nat} {message : String}

/-- The page has given up. -/
def GaveUp (client : UploadClient) : Prop := client.phase = .cancelling ∨ client.phase = .rejected

/-- Every chunk that was taken is at a worker, or stored; and a worker is through when all were taken. -/
structure Working (client : UploadClient) (stored : Nat → Prop) : Prop where
  covered : ∀ i < client.nextChunkIndex,
    (∃ a, .sending i a ∈ client.workers ∨ .waiting i a ∈ client.workers) ∨ stored i
  nonempty : client.workers ≠ []
  unfailed : .rejected ∉ client.workers
  through : .resolved ∈ client.workers → client.totalChunks ≤ client.nextChunkIndex

/-- When all workers are through, all chunks are stored. -/
theorem Working.all_stored (h : Working client stored) (hall : ∀ worker ∈ client.workers, worker = .resolved)
    (hi : i < client.totalChunks) : stored i := by
  obtain ⟨worker, hworker⟩ := List.exists_mem_of_ne_nil _ h.nonempty
  have hresolved := hall worker hworker
  subst hresolved
  rcases h.covered i (hi.trans_le (h.through hworker)) with ⟨a, hsending | hwaiting⟩ | hstored
  · cases hall _ hsending
  · cases hall _ hwaiting
  · exact hstored

theorem Working.mono {stored' : Nat → Prop} (h : Working client stored) (hmono : ∀ i, stored i → stored' i) :
    Working client stored' :=
  { h with covered := fun i hi => (h.covered i hi).imp_right (hmono i) }

/-- A worker of the list is still there when another one moves on. -/
theorem mem_set_of_ne {α : Type} {workers : List α} {old new worker : α} (hk : workers[k]? = some old)
    (hmem : worker ∈ workers) (hne : worker ≠ old) : worker ∈ workers.set k new := by
  obtain ⟨j, hj⟩ := List.mem_iff_getElem?.mp hmem
  refine List.mem_iff_getElem?.mpr ⟨j, ?_⟩
  rw [List.getElem?_set_ne, hj]
  rintro rfl
  exact hne (Option.some.inj (hj.symm.trans hk))

theorem mem_set_self {α : Type} {workers : List α} {old new : α} (hk : workers[k]? = some old) :
    new ∈ workers.set k new :=
  List.mem_iff_getElem?.mpr ⟨k, by rw [List.getElem?_set_self (List.getElem?_eq_some_iff.mp hk).1]⟩

theorem joinWorkers_working (h : Working client stored) : Working (joinWorkers client).1 stored := by
  unfold joinWorkers
  split
  · exact ⟨h.covered, h.nonempty, h.unfailed, h.through⟩
  · exact h

/-- The worker of a stored chunk moves on. -/
theorem chunkStored_working (h : Working client stored) (hk : client.workers[k]? = some (.sending i a))
    (hstored : stored i) : Working (client.chunkStored k).1 stored := by
  have hcovered : ∀ new, ∀ j < client.nextChunkIndex,
      (∃ b, .sending j b ∈ client.workers.set k new ∨ .waiting j b ∈ client.workers.set k new) ∨ stored j := by
    intro new j hj
    rcases h.covered j hj with ⟨b, hsending | hwaiting⟩ | hold
    · by_cases hsame : Worker.sending j b = .sending i a
      · cases hsame
        exact Or.inr hstored
      · exact Or.inl ⟨b, Or.inl (mem_set_of_ne hk hsending hsame)⟩
    · exact Or.inl ⟨b, Or.inr (mem_set_of_ne hk hwaiting (by simp))⟩
    · exact Or.inr hold
  have hnonempty : ∀ new, client.workers.set k new ≠ [] := by
    intro new hnil
    exact h.nonempty (by simpa using hnil)
  unfold chunkStored
  split
  · next hnext =>
      refine ⟨fun j hj => ?_, hnonempty _, fun hmem => ?_, fun hmem => ?_⟩
      · rcases Nat.lt_succ_iff_lt_or_eq.mp hj with hold | rfl
        · exact hcovered _ j hold
        · exact Or.inl ⟨1, Or.inl (mem_set_self hk)⟩
      · rcases List.mem_or_eq_of_mem_set hmem with hold | hnew
        · exact h.unfailed hold
        · cases hnew
      · rcases List.mem_or_eq_of_mem_set hmem with hold | hnew
        · exact absurd (h.through hold) (Nat.not_le.mpr hnext)
        · cases hnew
  · next hnext =>
      refine joinWorkers_working ⟨hcovered _, hnonempty _, fun hmem => ?_, fun _ => Nat.not_lt.mp hnext⟩
      rcases List.mem_or_eq_of_mem_set hmem with hold | hnew
      · exact h.unfailed hold
      · cases hnew

/-- A worker stays with its chunk. -/
theorem replace_working (h : Working client stored) {old new : Worker} (hk : client.workers[k]? = some old)
    (hold : old = .sending i a ∨ old = .waiting i a) (hnew : (∃ b, new = .sending i b) ∨ ∃ b, new = .waiting i b) :
    Working { client with workers := client.workers.set k new } stored := by
  have hat : (∃ b, .sending i b ∈ client.workers.set k new ∨ .waiting i b ∈ client.workers.set k new) := by
    rcases hnew with ⟨b, rfl⟩ | ⟨b, rfl⟩
    · exact ⟨b, Or.inl (mem_set_self hk)⟩
    · exact ⟨b, Or.inr (mem_set_self hk)⟩
  refine ⟨fun j hj => ?_, fun hnil => h.nonempty (by simpa using hnil), fun hmem => ?_, fun hmem => ?_⟩
  · by_cases hij : j = i
    · subst hij
      exact Or.inl hat
    · rcases h.covered j hj with ⟨b, hsending | hwaiting⟩ | hstored
      · refine Or.inl ⟨b, Or.inl (mem_set_of_ne hk hsending ?_)⟩
        rcases hold with rfl | rfl
        · intro heq
          cases heq
          exact hij rfl
        · simp
      · refine Or.inl ⟨b, Or.inr (mem_set_of_ne hk hwaiting ?_)⟩
        rcases hold with rfl | rfl
        · simp
        · intro heq
          cases heq
          exact hij rfl
      · exact Or.inr hstored
  · rcases List.mem_or_eq_of_mem_set hmem with hthere | heq
    · exact h.unfailed hthere
    · rcases hnew with ⟨b, rfl⟩ | ⟨b, rfl⟩ <;> cases heq
  · rcases List.mem_or_eq_of_mem_set hmem with hthere | heq
    · exact h.through hthere
    · rcases hnew with ⟨b, rfl⟩ | ⟨b, rfl⟩ <;> cases heq

theorem joinWorkers_cases (client : UploadClient) : joinWorkers client = (client, []) ∨
    (client.phase = .uploading ∧ (∀ worker ∈ client.workers, worker = .resolved) ∧
      joinWorkers client = ({ client with phase := .completing }, [.complete])) := by
  unfold joinWorkers
  split
  · next h => exact Or.inr ⟨h.1, h.2, rfl⟩
  · exact Or.inl rfl

theorem GaveUp.giveUp (h : client.phase ≠ .resolved) : GaveUp (giveUp client).1 := by
  obtain ⟨totalChunks, nextChunkIndex, workers, phase⟩ := client
  cases phase with
  | uploading | completing | cancelling => exact Or.inl rfl
  | rejected => exact Or.inr rfl
  | resolved => exact absurd rfl h

theorem GaveUp.chunkStored (h : client.GaveUp) (k : Nat) : GaveUp (client.chunkStored k).1 := by
  unfold UploadClient.chunkStored
  split
  · exact h
  · rcases joinWorkers_cases { client with workers := client.workers.set k .resolved } with hsame | ⟨huploading, -⟩
    · rw [hsame]
      exact h
    · rcases h with h | h <;> cases h.symm.trans huploading

theorem chunkFailed_cases (client : UploadClient) (k i a : Nat) (message : String) :
    (a < chunkMaxRetries ∧ client.chunkFailed k i a message =
      ({ client with workers := client.workers.set k (.waiting i a) }, [])) ∨
    client.chunkFailed k i a message = giveUp { client with workers := client.workers.set k .rejected } := by
  unfold chunkFailed
  split
  · next h => exact Or.inl ⟨h.2, rfl⟩
  · exact Or.inr rfl

end UploadClient

/-- What a step of the system may be. -/
inductive Advances (h : Handler serverSignature Server) (system : UploadSystem) : UploadSystem → Prop
  | turn {request : PageRequest} {op : serverSignature.Op} {next : serverSignature.Answer op → ServerProgram Unit}
      (hsent : request ∈ system.sent) (hcall : system.programs request = .call op next) :
      Advances h system
        { system with programs := Function.update system.programs request (next (h op system.server).1),
                      server := (h op system.server).2 }
  | stored {k i a : Nat} (hk : system.client.workers[k]? = some (.sending i a))
      (hdone : system.programs (.chunk i a) = .done ()) : Advances h system (system.react (system.client.chunkStored k))
  | failed {k i a : Nat} (hk : system.client.workers[k]? = some (.sending i a)) (message : String) :
      Advances h system (system.react (system.client.chunkFailed k i a message))
  | resent {k i a : Nat} (hk : system.client.workers[k]? = some (.waiting i a)) :
      Advances h system (system.react (system.client.chunkResent k i a))
  | completed (hphase : system.client.phase = .completing) (hdone : system.programs .complete = .done ()) :
      Advances h system { system with client := { system.client with phase := .resolved } }
  | incomplete (hphase : system.client.phase = .completing) :
      Advances h system (system.react system.client.giveUp)
  | cancelled (hphase : system.client.phase = .cancelling) :
      Advances h system { system with client := { system.client with phase := .rejected } }

theorem advances_of_step {h : Handler serverSignature Server} {system system' : UploadSystem} {event : UploadEvent}
    (hstep : system.step h event = some system') : Advances h system system' := by
  cases event with
  | turn request =>
      simp only [UploadSystem.step] at hstep
      split at hstep
      · next hsent =>
          cases hcall : system.programs request with
          | call op next =>
              rw [hcall] at hstep
              cases hstep
              exact .turn hsent hcall
          | done value | fail error =>
              rw [hcall] at hstep
              cases hstep
      · cases hstep
  | answered k =>
      simp only [UploadSystem.step] at hstep
      split at hstep
      · next i a hk =>
          cases hprogram : system.programs (.chunk i a) with
          | done value =>
              rw [hprogram] at hstep
              cases hstep
              exact .stored hk hprogram
          | fail error =>
              rw [hprogram] at hstep
              cases hstep
              exact .failed hk error.display
          | call op next =>
              rw [hprogram] at hstep
              cases hstep
      · cases hstep
  | refused k message =>
      simp only [UploadSystem.step] at hstep
      split at hstep
      · next i a hk =>
          cases hstep
          exact .failed hk message
      · cases hstep
  | resend k =>
      simp only [UploadSystem.step] at hstep
      split at hstep
      · next i a hk =>
          cases hstep
          exact .resent hk
      · cases hstep
  | completeAnswered =>
      simp only [UploadSystem.step] at hstep
      split at hstep
      · next hphase =>
          cases hprogram : system.programs .complete with
          | done value =>
              rw [hprogram] at hstep
              cases hstep
              exact .completed hphase hprogram
          | fail error =>
              rw [hprogram] at hstep
              cases hstep
              exact .incomplete hphase
          | call op next =>
              rw [hprogram] at hstep
              cases hstep
      · cases hstep
  | completeRefused =>
      simp only [UploadSystem.step] at hstep
      split at hstep
      · next hphase =>
          cases hstep
          exact .incomplete hphase
      · cases hstep
  | cancelSettled =>
      simp only [UploadSystem.step] at hstep
      split at hstep
      · next hphase =>
          cases hstep
          exact .cancelled hphase
      · cases hstep

/-- A page that has given up does not report success later. -/
theorem Advances.gaveUp {h : Handler serverSignature Server} {system system' : UploadSystem}
    (hstep : Advances h system system') (hgave : system.client.GaveUp) : system'.client.GaveUp := by
  cases hstep with
  | turn hsent hcall => exact hgave
  | stored hk hdone => exact hgave.chunkStored _
  | @failed k i a hk message =>
      rcases system.client.chunkFailed_cases k i a message with ⟨-, heq⟩ | heq
      · rw [UploadSystem.react, heq]
        exact hgave
      · rw [UploadSystem.react, heq]
        refine UploadClient.GaveUp.giveUp fun hphase => ?_
        rcases hgave with hgave | hgave <;> cases hgave.symm.trans hphase
  | resent hk => exact hgave
  | completed hphase hdone => rcases hgave with hgave | hgave <;> cases hgave.symm.trans hphase
  | incomplete hphase => exact UploadClient.GaveUp.giveUp (by rw [hphase]; nofun)
  | cancelled hphase => exact Or.inr rfl

namespace PageUpload

variable (page : PageUpload) (config : AppConfig)

/-- Where the file is stored. -/
def target : Path :=
  targetRoot config page.session.targetType page.session.targetId ++ splitComponents page.targetPath

/-- The chunks of the file, in order. -/
def chunks : List Bytes := (List.range page.totalChunks).map page.chunk

/-- What a read of a chunk file gives. -/
def ReadsChunks (path : Path) (content : Bytes) : Prop :=
  ∀ i < page.totalChunks, path = chunkPath config page.session.uploadId i → content = page.chunk i

/-- What a request that succeeds has done. -/
def Accomplishes (unlockState : UnlockState) (P : Primitives) :
    PageRequest → Except AppError Unit → Deed → Prop
  | .chunk i _, result, deed => result = .ok () →
      (page.chunk i).length =
        expectedChunkLen page.file.length config.chunkSizeBytes page.totalChunks i ∧
      ∃ place, deed.written = some (place, page.chunk i)
  | .complete, result, deed => result = .ok () → WellFormedPath page.targetPath ∧ ∃ key place segments,
      targetKey unlockState page.session.targetType page.session.targetId = .ok key ∧
      sealSegments P (EncryptorBE32.new key page.streamNonce) page.chunks = some segments ∧
      deed.written = some (place, withHash P (streamContent page.streamNonce segments))
  | .cancel, _, _ => True

/-- The row that the session is opened with. -/
def row (expiresAt : String) : ChunkedUpload := newUploadRow page.session.uploadId expiresAt page.initParams

/-- The system before the page gives up, in terms of what the requests have done. -/
structure Underway (unlockState : UnlockState) (P : Primitives) (expiresAt : String) (system : UploadSystem)
    (deeds : PageRequest → Deed) : Prop where
  intact : Intact config (page.row expiresAt) (page.target config) system.server.1.tree system.server.2.rows deeds
  guarded : ∀ request, request ≠ .cancel → (system.programs request).Guarded
    (Handles (page.ReadsChunks config) (KeepsRow (page.row expiresAt)))
    (MayCall config page.session.uploadId (page.target config) request) (deeds request)
    (page.Accomplishes config unlockState P request)
  /-- What was not sent has done nothing. -/
  idle : ∀ request ∉ system.sent, deeds request = ⟨none, false⟩
  uncancelled : .cancel ∉ system.sent
  /-- Only the completion comes after the chunks. -/
  uploading : .complete ∈ system.sent → system.client.phase ≠ .uploading
  joined : system.client.phase ≠ .uploading → ∀ worker ∈ system.client.workers, worker = .resolved
  total : system.client.totalChunks = page.totalChunks
  working : system.client.Working fun i => ∃ a, system.programs (.chunk i a) = .done ()
  resolved : system.client.phase = .resolved → system.programs .complete = .done ()

end PageUpload

section Run

variable {page : PageUpload} {config : AppConfig} {unlockState : UnlockState} {P : Primitives} {expiresAt : String}
  {system system' : UploadSystem} {deeds : PageRequest → Deed}

namespace PageUpload.Underway

/-- A chunk that is stored is all in its file. -/
theorem deed_of_done (h : page.Underway config unlockState P expiresAt system deeds) {i a : Nat}
    (hdone : system.programs (.chunk i a) = .done ()) :
    (deeds (.chunk i a)).written = some (chunkPath config page.session.uploadId i, page.chunk i) ∧
      (page.chunk i).length = expectedChunkLen page.file.length config.chunkSizeBytes page.totalChunks i := by
  have hguarded := h.guarded (.chunk i a) nofun
  rw [hdone] at hguarded
  obtain ⟨hlength, place, hwritten⟩ := hguarded rfl
  obtain ⟨rfl, -⟩ := h.intact.chunk i a place _ hwritten
  exact ⟨hwritten, hlength⟩

/-- Before the completion is sent, the staging directory is there. -/
theorem uncleared (h : page.Underway config unlockState P expiresAt system deeds)
    (hphase : system.client.phase = .uploading) : (deeds .complete).cleared = false := by
  rw [h.idle .complete fun hsent => h.uploading hsent hphase]

/-- While a worker is at a chunk, the page is uploading. -/
theorem phase_of_mem (h : page.Underway config unlockState P expiresAt system deeds) {worker : Worker}
    (hmem : worker ∈ system.client.workers) (hne : worker ≠ .resolved) : system.client.phase = .uploading := by
  by_contra hphase
  exact hne (h.joined hphase worker hmem)

theorem phase_of_worker (h : page.Underway config unlockState P expiresAt system deeds) {k : Nat} {worker : Worker}
    (hk : system.client.workers[k]? = some worker) (hne : worker ≠ .resolved) :
    system.client.phase = .uploading :=
  h.phase_of_mem (List.mem_of_getElem? hk) hne

/-- Of the attempts at a chunk one stores it, as long as the page is uploading. -/
theorem attempt_eq (h : page.Underway config unlockState P expiresAt system deeds)
    (hphase : system.client.phase = .uploading) {i a b : Nat} (ha : system.programs (.chunk i a) = .done ())
    (hb : system.programs (.chunk i b) = .done ()) : a = b :=
  h.intact.single (h.uncleared hphase) i a b (by rw [(h.deed_of_done ha).1]; exact nofun)
    (by rw [(h.deed_of_done hb).1]; exact nofun)

/-- Once the completion is sent, all chunks are stored. -/
theorem all_stored (h : page.Underway config unlockState P expiresAt system deeds)
    (hphase : system.client.phase ≠ .uploading) {i : Nat} (hi : i < page.totalChunks) :
    ∃ a, system.programs (.chunk i a) = .done () :=
  h.working.all_stored (h.joined hphase) (by rw [h.total]; exact hi)

/-- What the completion reads are the chunks. -/
theorem reads (h : page.Underway config unlockState P expiresAt system deeds)
    (hliteral : ∀ name ∈ stagingDir config page.session.uploadId, Ordinary name)
    (hphase : system.client.phase ≠ .uploading) (hcleared : (deeds .complete).cleared = false)
    (path place : Path) (content : Bytes) (hfile : system.server.1.tree.fileAt path = .ok (place, content)) :
    page.ReadsChunks config path content := by
  rintro i hi rfl
  obtain ⟨a, hdone⟩ := h.all_stored hphase hi
  obtain ⟨-, hnode⟩ := h.intact.chunk i a _ _ (h.deed_of_done hdone).1
  obtain ⟨hloc, hat⟩ := locate_of_fileAt hfile
  have hplace := locate_of_straight
    (h.intact.linkFree.straight (chunkPath_literal hliteral i)) hloc
  subst hplace
  cases hat.symm.trans (hnode hcleared)
  rfl

/-- The page goes on: it sends more chunks, or the completion when all are stored. -/
theorem react (h : page.Underway config unlockState P expiresAt system deeds)
    {reaction : UploadClient × List PageRequest} (hwas : system.client.phase = .uploading)
    (htotal : reaction.1.totalChunks = page.totalChunks)
    (hworking : reaction.1.Working fun i => ∃ a, system.programs (.chunk i a) = .done ())
    (hnext : (reaction.1.phase = .uploading ∧ .complete ∉ reaction.2 ∧ .cancel ∉ reaction.2) ∨
      (reaction.1.phase = .completing ∧ (∀ worker ∈ reaction.1.workers, worker = .resolved) ∧
        reaction.2 = [.complete])) :
    page.Underway config unlockState P expiresAt (system.react reaction) deeds where
  intact := h.intact
  guarded := h.guarded
  idle request hsent := h.idle request fun hmem => hsent (List.mem_append_left _ hmem)
  uncancelled hmem := by
    rcases List.mem_append.mp hmem with hold | hnew
    · exact h.uncancelled hold
    · rcases hnext with ⟨-, -, hcancel⟩ | ⟨-, -, heq⟩
      · exact hcancel hnew
      · rw [heq] at hnew
        simp at hnew
  uploading hmem hphase := by
    rcases hnext with ⟨-, hcomplete, -⟩ | ⟨hcompleting, -, -⟩
    · rcases List.mem_append.mp hmem with hold | hnew
      · exact h.uploading hold hwas
      · exact hcomplete hnew
    · cases hcompleting.symm.trans hphase
  joined hphase := by
    rcases hnext with ⟨huploading, -, -⟩ | ⟨-, hall, -⟩
    · exact absurd huploading hphase
    · exact hall
  total := htotal
  working := hworking
  resolved hphase := by
    rcases hnext with ⟨huploading, -, -⟩ | ⟨hcompleting, -, -⟩
    · cases huploading.symm.trans hphase
    · cases hcompleting.symm.trans hphase

/-- A worker's chunk is stored. -/
theorem stored (h : page.Underway config unlockState P expiresAt system deeds) {k i a : Nat}
    (hk : system.client.workers[k]? = some (.sending i a)) (hdone : system.programs (.chunk i a) = .done ()) :
    page.Underway config unlockState P expiresAt (system.react (system.client.chunkStored k)) deeds := by
  have hphase := h.phase_of_worker hk nofun
  have hworking := UploadClient.chunkStored_working h.working hk ⟨a, hdone⟩
  by_cases hnext : system.client.nextChunkIndex < system.client.totalChunks
  · refine h.react hphase ?_ hworking (Or.inl ?_)
    all_goals rw [UploadClient.chunkStored, if_pos hnext]
    · exact h.total
    · exact ⟨hphase, by simp, by simp⟩
  · rw [UploadClient.chunkStored, if_neg hnext] at hworking ⊢
    rcases UploadClient.joinWorkers_cases { system.client with workers := system.client.workers.set k .resolved }
      with hsame | ⟨-, hall, hjoined⟩
    · rw [hsame] at hworking ⊢
      exact h.react hphase h.total hworking (Or.inl ⟨hphase, by simp, by simp⟩)
    · rw [hjoined] at hworking ⊢
      exact h.react hphase h.total hworking (Or.inr ⟨rfl, hall, rfl⟩)

/-- A worker's attempt has failed, and it is to try again. -/
theorem retried (h : page.Underway config unlockState P expiresAt system deeds) {k i a : Nat}
    (hk : system.client.workers[k]? = some (.sending i a)) :
    page.Underway config unlockState P expiresAt
      (system.react ({ system.client with workers := system.client.workers.set k (.waiting i a) }, [])) deeds :=
  have hphase := h.phase_of_worker hk nofun
  h.react hphase h.total (UploadClient.replace_working h.working hk (Or.inl rfl) (Or.inr ⟨a, rfl⟩))
    (Or.inl ⟨hphase, by simp, by simp⟩)

theorem resent (h : page.Underway config unlockState P expiresAt system deeds) {k i a : Nat}
    (hk : system.client.workers[k]? = some (.waiting i a)) :
    page.Underway config unlockState P expiresAt (system.react (system.client.chunkResent k i a)) deeds :=
  have hphase := h.phase_of_worker hk nofun
  h.react hphase h.total (UploadClient.replace_working h.working hk (Or.inr rfl) (Or.inl ⟨a + 1, rfl⟩))
    (Or.inl ⟨hphase, by simp [UploadClient.chunkResent], by simp [UploadClient.chunkResent]⟩)

/-- The server makes a call of a request. -/
theorem turn (h : page.Underway config unlockState P expiresAt system deeds)
    (hliteral : ∀ name ∈ stagingDir config page.session.uploadId, Ordinary name)
    (hapart : ¬ stagingDir config page.session.uploadId <+: page.target config)
    (oracle : Nat → Choice) (dbOracle : Nat → Option String) {request : PageRequest} {op : serverSignature.Op}
    {next : serverSignature.Answer op → ServerProgram Unit} (hsent : request ∈ system.sent)
    (hcall : system.programs request = .call op next) :
    ∃ deeds', page.Underway config unlockState P expiresAt
      { system with
        programs := Function.update system.programs request
          (next (serverHandler oracle dbOracle op system.server).1),
        server := (serverHandler oracle dbOracle op system.server).2 } deeds' := by
  have hrequest : request ≠ .cancel := fun heq => h.uncancelled (heq ▸ hsent)
  have hguarded := h.guarded request hrequest
  rw [hcall] at hguarded
  obtain ⟨deed', hhandles, hintact⟩ := Intact.turn (page.ReadsChunks config) oracle dbOracle h.intact hapart
    hliteral hrequest hguarded.1 fun heq hcleared path place content hfile =>
      h.reads hliteral (h.uploading (heq ▸ hsent)) hcleared path place content hfile
  have hdone : ∀ other, system.programs other = .done () →
      Function.update system.programs request (next (serverHandler oracle dbOracle op system.server).1) other =
        .done () := by
    intro other hother
    rw [Function.update_of_ne, hother]
    rintro rfl
    cases hcall.symm.trans hother
  refine ⟨Function.update deeds request deed', hintact, fun other hother => ?_, fun other hunsent => ?_, h.uncancelled,
    h.uploading, h.joined, h.total, h.working.mono fun i hi => ?_, fun hphase => hdone _ (h.resolved hphase)⟩
  · dsimp only
    by_cases heq : other = request
    · subst heq
      rw [Function.update_self, Function.update_self]
      exact hguarded.2 _ _ hhandles
    · rw [Function.update_of_ne heq, Function.update_of_ne heq]
      exact h.guarded other hother
  · rw [Function.update_of_ne]
    · exact h.idle other hunsent
    · rintro rfl
      exact hunsent hsent
  · obtain ⟨a, ha⟩ := hi
    exact ⟨a, hdone _ ha⟩

/-- A step leaves the upload under way, or the page gives up. -/
theorem advance (h : page.Underway config unlockState P expiresAt system deeds)
    (hliteral : ∀ name ∈ stagingDir config page.session.uploadId, Ordinary name)
    (hapart : ¬ stagingDir config page.session.uploadId <+: page.target config)
    {oracle : Nat → Choice} {dbOracle : Nat → Option String}
    (hstep : Advances (serverHandler oracle dbOracle) system system') :
    system'.client.GaveUp ∨ ∃ deeds', page.Underway config unlockState P expiresAt system' deeds' := by
  cases hstep with
  | turn hsent hcall => exact Or.inr (h.turn hliteral hapart oracle dbOracle hsent hcall)
  | stored hk hdone => exact Or.inr ⟨deeds, h.stored hk hdone⟩
  | @failed k i a hk message =>
      have hphase := h.phase_of_worker hk nofun
      rcases system.client.chunkFailed_cases k i a message with ⟨-, heq⟩ | heq
      · refine Or.inr ⟨deeds, ?_⟩
        rw [heq]
        exact h.retried hk
      · refine Or.inl ?_
        rw [UploadSystem.react, heq]
        exact UploadClient.GaveUp.giveUp (by rw [hphase]; nofun)
  | resent hk => exact Or.inr ⟨deeds, h.resent hk⟩
  | completed hphase hdone =>
      have hnot : system.client.phase ≠ .uploading := by
        rw [hphase]
        nofun
      exact Or.inr ⟨deeds, h.intact, h.guarded, h.idle, h.uncancelled, fun _ => nofun, fun _ => h.joined hnot, h.total,
        ⟨h.working.covered, h.working.nonempty, h.working.unfailed, h.working.through⟩, fun _ => hdone⟩
  | incomplete hphase => exact Or.inl (UploadClient.GaveUp.giveUp (by rw [hphase]; nofun))
  | cancelled hphase => exact Or.inl (Or.inr rfl)

end PageUpload.Underway

/-! ### From the opening of the session -/

variable {crates : Crates} {server started : Server} {oracle : Nat → Choice} {dbOracle : Nat → Option String}
  {info : InitUploadResult} {opened : Int}

/-- A session that is opened has its directory and its row, whatever else may fail. -/
theorem initUpload_started {uploadId : String} {params : InitUploadParams}
    (h : FreshUpload crates config server uploadId)
    (hopen : (initUpload crates config uploadId opened params).run (serverHandler oracle dbOracle) server =
      (.ok info, started)) :
    checkInitUpload config params = .ok () ∧
      started.1.tree = server.1.tree.put (stagingDir config uploadId) .dir ∧
      started.2.rows = server.2.rows ++ [newUploadRow uploadId info.expiresAt params] := by
  have hmade : server.1.tree.createDirs [] (stagingDir config uploadId) =
      .ok (server.1.tree.put (stagingDir config uploadId) .dir) := by
    have hplace := h.resolved
    have hnone := h.no_dir
    rw [stagingDir] at hplace hnone ⊢
    rw [createDirs_through config.chunksDir [uploadId] (by simpa using h.area) (by simpa using h.area_dir),
      List.nil_append, createDirs, locateFrom_of_resolved maxLinks _ hplace]
    simp [hnone, createDirs]
  have hensures : (initUpload crates config uploadId opened params).Ensures
      (Program.Exactly (serverHandler oracle dbOracle)) server fun result server' => ∀ info, result = .ok info →
        checkInitUpload config params = .ok () ∧
        server'.1.tree = server.1.tree.put (stagingDir config uploadId) .dir ∧
        server'.2.rows = server.2.rows ++ [newUploadRow uploadId info.expiresAt params] := by
    refine Program.ensures_ofExcept_bind (fun _ hcheck => ?_) fun _ _ _ heq => by cases heq
    intro answer server' hcall
    have hdisk : (FsCall.createDirAll (stagingDir config uploadId)).perform (oracle server.1.tick) server.1.tree =
        (answer, server'.1.tree) := by
      obtain ⟨rfl, rfl⟩ := hcall
      rfl
    have hrows : server'.2.rows = server.2.rows := by
      obtain ⟨-, rfl⟩ := hcall
      rfl
    cases answer with
    | error e => exact fun info heq => by cases heq
    | ok u =>
        have htree : server'.1.tree = server.1.tree.put (stagingDir config uploadId) .dir := by
          cases hfault : (oracle server.1.tick).fault with
          | some message =>
              simp only [FsCall.perform, hfault] at hdisk
              cases hdisk
          | none =>
              simp only [FsCall.perform, hfault, hmade] at hdisk
              exact (Prod.mk.inj hdisk).2.symm
        intro answer' server'' hcall'
        have hstatement : (UploadsCall.insert (newUploadRow uploadId (crates.formatTimestamp
            (opened + 3600 * toI64 config.chunkUploadExpiryHours)) params)).perform (dbOracle server'.2.tick)
              server'.2.rows = (answer', server''.2.rows) := by
          obtain ⟨rfl, rfl⟩ := hcall'
          rfl
        have hkept : server''.1.tree = server'.1.tree := by
          obtain ⟨-, rfl⟩ := hcall'
          rfl
        cases answer' with
        | error e => exact fun info heq => by cases heq
        | ok u =>
            intro info hinfo
            cases hinfo
            refine ⟨hcheck, hkept.trans htree, ?_⟩
            cases hfault : dbOracle server'.2.tick with
            | some message =>
                simp only [UploadsCall.perform, hfault] at hstatement
                cases hstatement
            | none =>
                simp only [UploadsCall.perform, hfault] at hstatement
                split at hstatement
                · cases hstatement
                · obtain ⟨-, hinserted⟩ := Prod.mk.inj hstatement
                  rw [← hinserted, hrows]
  have hrun := hensures.run_exactly
  rw [hopen] at hrun
  exact hrun info rfl

theorem getMaxParallelChunks_pos (raw : Option Int) : 0 < getMaxParallelChunks raw := by
  cases raw with
  | none => decide
  | some parsed =>
      rw [getMaxParallelChunks]
      split <;> omega

theorem getChunkSizeBytes_pos (raw : Option Int) : 0 < getChunkSizeBytes raw := by
  cases raw with
  | none => decide
  | some parsed =>
      rw [getChunkSizeBytes]
      split <;> omega

/-- The page starts with a worker at each of the first chunks. -/
theorem start_eq (page : PageUpload) (hsome : 0 < page.totalChunks) : ∃ count, 0 < count ∧
    page.start = (⟨page.totalChunks, count, (List.range count).map fun i => .sending i 1, .uploading⟩,
      (List.range count).map fun i => .chunk i 1) := by
  refine ⟨min (getMaxParallelChunks page.maxParallelAttribute) page.totalChunks,
    Nat.lt_min.mpr ⟨getMaxParallelChunks_pos _, hsome⟩, ?_⟩
  have hcount : 0 < min (getMaxParallelChunks page.maxParallelAttribute) page.totalChunks :=
    Nat.lt_min.mpr ⟨getMaxParallelChunks_pos _, hsome⟩
  simp only [PageUpload.start, UploadClient.start]
  generalize min (getMaxParallelChunks page.maxParallelAttribute) page.totalChunks = count at hcount ⊢
  have hnot : ¬ ∀ worker ∈ (List.range count).map fun i => Worker.sending i 1, worker = .resolved := by
    intro hall
    cases hall (.sending 0 1) (List.mem_map.mpr ⟨0, List.mem_range.mpr hcount, rfl⟩)
  rw [UploadClient.joinWorkers, if_neg fun h => hnot h.2]
  simp only [List.append_nil]

theorem target_apart : ¬ stagingDir config page.session.uploadId <+: page.target config := by
  intro hbelow
  refine targetRoot_apart page.session.targetType page.session.targetId (page.target config) (List.prefix_append _ _) ?_
  exact (List.prefix_append _ _).trans hbelow

theorem targetRoot_literal {uploadId targetId : String} (hfresh : FreshUpload crates config server uploadId)
    (targetType : String) (hroot : Ordinary targetId) :
    ∀ name ∈ targetRoot config targetType targetId, Ordinary name := by
  have hdata : ∀ name ∈ config.dataDir, Ordinary name :=
    fun name hname => hfresh.area.ordinary name (List.mem_append_left _ hname)
  have hall : ∀ folder, Ordinary folder → ∀ name ∈ config.dataDir ++ [folder, targetId], Ordinary name := by
    intro folder hfolder name hname
    simp only [List.mem_append, List.mem_cons, List.not_mem_nil, or_false] at hname
    rcases hname with hname | rfl | rfl
    · exact hdata name hname
    · exact hfolder
    · exact hroot
  unfold targetRoot
  split
  · exact hall "spaces" (by simp [Ordinary])
  · exact hall "libraries" (by simp [Ordinary])

/-- Once its session is open, an upload is under way. -/
theorem underway_of_opened (hfresh : FreshUpload crates config server page.session.uploadId)
    (hfree : server.1.tree.LinkFree) (hroot : Ordinary page.session.targetId)
    (hmax : config.maxUploadBytes < 2 ^ 64)
    (hopen : (initUpload crates config page.session.uploadId opened page.initParams).run
      (serverHandler oracle dbOracle) server = (.ok info, started)) :
    page.Underway config unlockState P info.expiresAt (UploadSystem.start page P crates config unlockState started)
      fun _ => ⟨none, false⟩ := by
  obtain ⟨hcheck, htree, hrows⟩ := initUpload_started hfresh hopen
  obtain ⟨hchunks, hbytes⟩ := newUploadRow_reads hcheck hmax page.session.uploadId info.expiresAt
  obtain ⟨count, hcount, hstart⟩ := start_eq page (checkInitUpload_pos hcheck)
  have hplace := hfresh.resolved
  have hadmits : server.1.tree.Admits (stagingDir config page.session.uploadId) :=
    ⟨by simp [stagingDir], hplace.dir, by simp [hfresh.no_dir]⟩
  have hrow : ∀ r, KeepsRow (page.row info.expiresAt) page.session.uploadId r →
      toU32 r.totalChunks = page.totalChunks ∧ toU64 r.totalBytes = page.file.length ∧
        r.targetPath = page.targetPath := by
    intro r hr
    have hkept := hr rfl
    have htotalChunks : r.totalChunks = (page.row info.expiresAt).totalChunks := by rw [hkept]
    have htotalBytes : r.totalBytes = (page.row info.expiresAt).totalBytes := by rw [hkept]
    have htargetPath : r.targetPath = (page.row info.expiresAt).targetPath := by rw [hkept]
    refine ⟨?_, ?_, htargetPath⟩
    · rw [htotalChunks]
      exact hchunks
    · rw [htotalBytes]
      exact hbytes
  have hliteral := targetRoot_literal hfresh page.session.targetType hroot
  have hreads : List.Forall₂ (ReadsAs (page.ReadsChunks config))
      (chunkPaths config page.session.uploadId page.chunks.length) page.chunks := by
    rw [List.forall₂_iff_get]
    refine ⟨by simp [chunkPaths], fun i hi hi' content hread => ?_⟩
    simp only [PageUpload.chunks, List.length_map, List.length_range] at hi'
    simpa [PageUpload.chunks] using hread i hi' (by simp [chunkPaths])
  refine ⟨⟨?_, ?_, ?_, ?_, ?_, ?_⟩, fun request hrequest => ?_, fun _ _ => rfl, ?_, ?_, ?_, ?_, ?_, ?_⟩
  · show started.1.tree.LinkFree
    rw [htree]
    exact hfree.put _ fun _ _ heq => by cases heq
  · show ∀ r ∈ started.2.rows, _
    rw [hrows]
    intro r hr hid
    rcases List.mem_append.mp hr with hold | hnew
    · exact absurd hid (hfresh.no_row r hold)
    · rw [List.mem_singleton.mp hnew]
      simp only [PageUpload.row, newUploadRow]
  · intro _
    show started.1.tree.node _ = _
    rw [htree]
    exact node_put_self hadmits _
  · intro i a place content hwritten
    cases hwritten
  · exact fun _ i a b hwritten => absurd rfl hwritten
  · intro place content hwritten
    cases hwritten
  · show (page.serve P crates config unlockState request).Guarded _ _ _ _
    cases request with
    | cancel => exact absurd rfl hrequest
    | chunk i a =>
        refine (receiveChunk_handles (page.clock (.chunk i a)) i a (page.chunk i)
          fun r hr => ⟨(hrow r hr).1, (hrow r hr).2.1⟩).bind (fun received deed hreceived => ?_)
          fun _ _ _ heq => by cases heq
        exact fun _ => hreceived received rfl
    | complete =>
        refine (completeUpload_handles (page.clock .complete) page.streamNonce hliteral rfl
          (fun r hr => ⟨?_, (hrow r hr).2.2⟩) hreads).bind (fun upload deed hupload => ?_)
          fun _ _ _ heq => by cases heq
        · rw [(hrow r hr).1, PageUpload.chunks, List.length_map, List.length_range]
        · exact fun _ => hupload upload rfl
  all_goals simp only [UploadSystem.start, hstart]
  · simp
  · simp
  · exact fun hphase => absurd rfl hphase
  · refine ⟨fun i hi => Or.inl ⟨1, Or.inl (List.mem_map.mpr ⟨i, List.mem_range.mpr hi, rfl⟩)⟩, ?_, by simp, by simp⟩
    simpa using Nat.pos_iff_ne_zero.mp hcount
  · exact fun heq => by cases heq

/-- Along a run the upload is under way until the page gives up. -/
theorem underway_along (hfresh : FreshUpload crates config server page.session.uploadId)
    (hfree : server.1.tree.LinkFree) (hroot : Ordinary page.session.targetId) (hmax : config.maxUploadBytes < 2 ^ 64)
    (hopen : (initUpload crates config page.session.uploadId opened page.initParams).run
      (serverHandler oracle dbOracle) server = (.ok info, started)) {events : List UploadEvent}
    (hrun : UploadRun (serverHandler oracle dbOracle) (UploadSystem.start page P crates config unlockState started)
      events system) :
    system.client.GaveUp ∨ ∃ deeds, page.Underway config unlockState P info.expiresAt system deeds := by
  refine hrun.invariant (I := fun system => system.client.GaveUp ∨
    ∃ deeds, page.Underway config unlockState P info.expiresAt system deeds) ?_ ?_
  · exact Or.inr ⟨_, underway_of_opened hfresh hfree hroot hmax hopen⟩
  · intro system event system' hbefore hstep
    rcases hbefore with hgave | ⟨deeds, hunderway⟩
    · exact Or.inl ((advances_of_step hstep).gaveUp hgave)
    · exact hunderway.advance hfresh.resolved.ordinary target_apart (advances_of_step hstep)

theorem chunks_flatten : page.chunks.flatten = page.file := by
  have hsize := getChunkSizeBytes_pos page.chunkSizeAttribute
  have hcover : page.file.length ≤ page.totalChunks * page.chunkSize := by
    have := Nat.lt_mul_div_succ (page.file.length + page.chunkSize - 1) hsize
    rw [PageUpload.totalChunks]
    rw [Nat.mul_comm] at this
    change page.file.length + page.chunkSize - 1 <
      ((page.file.length + page.chunkSize - 1) / page.chunkSize + 1) * page.chunkSize at this
    rw [Nat.add_mul, Nat.one_mul] at this
    omega
  have hplain : ∀ i ∈ List.range page.totalChunks, page.chunk i =
      slice page.file (i * page.chunkSize) (i * page.chunkSize + page.chunkSize) :=
    fun i _ => slice_min_length _ _ _
  calc page.chunks.flatten
      = (List.range page.totalChunks).flatMap page.chunk := rfl
    _ = page.file.take (page.totalChunks * page.chunkSize) := by
        rw [List.flatMap_congr hplain, flatMap_slices]
    _ = page.file := List.take_of_length_le hcover

theorem downloadTarget_eq_download (targetType targetId userPath : String) :
    downloadTarget crates config P unlockState targetType targetId userPath =
      download P crates.mimeFromFilename (targetKey unlockState targetType targetId)
        (targetRoot config targetType targetId) userPath := by
  unfold downloadTarget targetKey targetRoot
  split <;> rfl

/-- What lies at the target when the completion has succeeded. -/
theorem PageUpload.Underway.target_file (h : page.Underway config unlockState P expiresAt system deeds) (hP : P.Lawful)
    (hshort : ∀ i < page.totalChunks,
      expectedChunkLen page.file.length config.chunkSizeBytes page.totalChunks i + 16 < 2 ^ 32)
    (hresolved : system.client.phase = .resolved) :
    WellFormedPath page.targetPath ∧ ∃ key blob,
      targetKey unlockState page.session.targetType page.session.targetId = .ok key ∧
      system.server.1.tree.node (page.target config) = some (.file blob) ∧
      readBytes P key blob = .ok page.file := by
  have hnot : system.client.phase ≠ .uploading := by
    rw [hresolved]
    nofun
  have hguarded := h.guarded .complete nofun
  rw [h.resolved hresolved] at hguarded
  obtain ⟨hwell, key, place, segments, hkey, hseal, hwritten⟩ := hguarded rfl
  have hlens : ∀ chunk ∈ page.chunks, chunk.length + 16 < 2 ^ 32 := by
    intro chunk hmem
    obtain ⟨i, hi, rfl⟩ := List.mem_map.mp hmem
    obtain ⟨a, hdone⟩ := h.all_stored hnot (List.mem_range.mp hi)
    rw [(h.deed_of_done hdone).2]
    exact hshort i (List.mem_range.mp hi)
  refine ⟨hwell, key, _, hkey, (h.intact.target _ _ hwritten).2, ?_⟩
  rw [(readBytes_stream P key page.streamNonce segments).2, streamDecryptBytes_streamContent hP hseal hlens,
    chunks_flatten]

end Run

/-- When the page reports that a chunked upload is done, the file it was given is stored. Whatever the server makes of
the calls of the requests and in whatever order, whichever of them fail, whichever answers are lost and however often
chunks are sent again: a download of the target then gives the file. -/
theorem resolved_upload_stored (P : Primitives) (hP : P.Lawful) (crates : Crates) (config : AppConfig)
    (hchunk : config.chunkSizeBytes ≤ 2 ^ 32 - 17) (hmax : config.maxUploadBytes < 2 ^ 64) (unlockState : UnlockState)
    (page : PageUpload) (hfits : page.file.length ≤ config.chunkSizeBytes * (2 ^ 32 - 1))
    (hroot : Ordinary page.session.targetId) (oracle : Nat → Choice) (dbOracle : Nat → Option String)
    (server started : Server) (hfree : server.1.tree.LinkFree)
    (hfresh : FreshUpload crates config server page.session.uploadId) (opened : Int) (info : InitUploadResult)
    (hopen : (initUpload crates config page.session.uploadId opened page.initParams).run
      (serverHandler oracle dbOracle) server = (.ok info, started))
    (events : List UploadEvent) (system : UploadSystem)
    (hrun : UploadRun (serverHandler oracle dbOracle) (UploadSystem.start page P crates config unlockState started)
      events system)
    (hresolved : system.client.phase = .resolved) (quiet : Nat → Choice) (hquiet : QuietOracle quiet) :
    ∃ downloaded, ((downloadTarget crates config P unlockState page.session.targetType page.session.targetId
      page.targetPath).run (fsHandler quiet) system.server.1).1 = .ok downloaded ∧ downloaded.data = page.file := by
  obtain ⟨hcheck, -, -⟩ := initUpload_started hfresh hopen
  obtain ⟨hsmall, hlarge, htotal⟩ := checkInitUpload_ok hcheck
  have hsome := checkInitUpload_pos hcheck
  have hpos : 0 < config.chunkSizeBytes := by
    refine Nat.pos_of_ne_zero fun hzero => ?_
    rw [htotal, hzero, expectedTotalChunks, if_neg (by omega), Nat.div_zero] at hsome
    exact absurd hsome (by decide)
  have hpartitions := (partitions_expectedTotalChunks hpos hsmall (hlarge.trans_lt hmax)
    (by rw [← htotal]; exact hsome)).mpr hfits
  rw [← htotal] at hpartitions
  have hunderway : ∃ deeds, page.Underway config unlockState P info.expiresAt system deeds := by
    refine (underway_along hfresh hfree hroot hmax hopen hrun).resolve_left fun hgave => ?_
    rcases hgave with hgave | hgave <;> cases hgave.symm.trans hresolved
  obtain ⟨deeds, hunderway⟩ := hunderway
  obtain ⟨hwell, key, blob, hkey, hnode, hread⟩ := hunderway.target_file hP (fun i hi => by
    have hlen : expectedChunkLen page.file.length config.chunkSizeBytes page.totalChunks i ≤ config.chunkSizeBytes :=
      (hpartitions.1 _ (List.mem_map_of_mem (List.mem_range.mpr hi))).2
    omega) hresolved
  have hexists : system.server.1.tree.node (page.target config) ≠ none := by
    rw [hnode]
    exact fun heq => by cases heq
  have hcanon : system.server.1.tree.canonicalize (targetRoot config page.session.targetType page.session.targetId) =
      .ok (targetRoot config page.session.targetType page.session.targetId) := by
    have hdir := node_above
      (List.prefix_append _ _ : targetRoot config page.session.targetType page.session.targetId <+:
        page.target config) (by simp [splitComponents_ne_nil]) hexists
    have hplain := canonicalize_plain (hunderway.intact.linkFree.straight
      (targetRoot_literal hfresh page.session.targetType hroot))
    rcases hplain with ⟨-, hplace⟩ | ⟨hnone, -⟩
    · exact hplace
    · rw [hdir] at hnone
      cases hnone
  obtain ⟨downloaded, hdata, hstops⟩ := download_stored
    hunderway.intact.linkFree hcanon (accepts_of_exists hwell hexists) hnode hread
  refine ⟨downloaded, ?_, hdata⟩
  rw [downloadTarget_eq_download, hkey]
  exact (run_of_stops hquiet hstops).1

namespace UploadSystem

/-- The system after these events, if they can happen one after the other. -/
def steps (h : Handler serverSignature Server) (system : UploadSystem) : List UploadEvent → Option UploadSystem
  | [] => some system
  | event :: events => (system.step h event).bind fun next => steps h next events

theorem run_of_steps {h : Handler serverSignature Server} (events : List UploadEvent) :
    ∀ {start : UploadSystem} {before : List UploadEvent} {system system' : UploadSystem},
      UploadRun h start before system → system.steps h events = some system' →
        UploadRun h start (before ++ events) system' := by
  induction events with
  | nil =>
      intro start before system system' hrun hsteps
      cases hsteps
      rwa [List.append_nil]
  | cons event events ih =>
      intro start before system system' hrun hsteps
      obtain ⟨next, hstep, hrest⟩ := Option.bind_eq_some_iff.mp hsteps
      have hlater := ih (Run.snoc hrun hstep) hrest
      rwa [List.append_assoc, List.singleton_append] at hlater

end UploadSystem

/-- A page with two workers that uploads a file of two bytes, one to a chunk. -/
def twoBytesPage : PageUpload where
  session := twoBytesSession
  targetPath := "docs/b"
  file := [1, 2]
  chunkSizeAttribute := some 1
  maxParallelAttribute := some 2
  clock := fun _ => -1
  streamNonce := ⟨List.replicate 7 0, seven_zeros⟩

/-- The page of two bytes, once its session is open. -/
def twoBytesStart : UploadSystem :=
  UploadSystem.start twoBytesPage plainPrimitives sampleCrates sampleConfig sampleUnlocked
    ((initUpload sampleCrates sampleConfig "u" (-2) twoBytesPage.initParams).run
      (serverHandler calmOracle fun _ => none) emptyServer).2

/-- The calls of both chunks in turn; the first request for the second chunk is lost on the way, and is served when the
completion is through. -/
def twoBytesEvents : List UploadEvent :=
  [.refused 1 "Network error", .resend 1] ++
    (List.replicate 9 [.turn (.chunk 0 1), .turn (.chunk 1 2)]).flatten ++ [.answered 1, .answered 0] ++
    List.replicate 21 (.turn .complete) ++ [.turn (.chunk 1 1), .completeAnswered]

theorem emptyServer_linkFree : emptyServer.1.tree.LinkFree := by
  have hdir : ∀ absolute target, Node.dir ≠ .symlink absolute target := by simp
  exact ((linkFree_empty.put ["libraries"] hdir).put ["libraries", "l"] hdir).put [".chunks"] hdir

theorem resolved_upload_stored_two :
    ∃ system, UploadRun (serverHandler calmOracle fun _ => none) twoBytesStart twoBytesEvents system ∧
      ∃ downloaded, ((downloadTarget sampleCrates sampleConfig plainPrimitives sampleUnlocked "library" "l"
        "docs/b").run (fsHandler calmOracle) system.server.1).1 = .ok downloaded ∧ downloaded.data = [1, 2] := by
  have hsteps : (twoBytesStart.steps (serverHandler calmOracle fun _ => none) twoBytesEvents).map
      (fun system => system.client.phase) = some .resolved := by decide
  obtain ⟨system, hsystem, hresolved⟩ := Option.map_eq_some_iff.mp hsteps
  have hrun := UploadSystem.run_of_steps twoBytesEvents Run.nil hsystem
  refine ⟨system, hrun, ?_⟩
  exact resolved_upload_stored plainPrimitives plainPrimitives_lawful sampleCrates sampleConfig (by decide) (by decide)
    sampleUnlocked twoBytesPage (by decide) (by simp [Ordinary, twoBytesPage, twoBytesSession]) calmOracle
    (fun _ => none) emptyServer _ emptyServer_linkFree emptyServer_fresh (-2) ⟨"u", 1, 2, 2, ""⟩
    (Prod.ext (by decide) rfl) _ system hrun hresolved calmOracle calmOracle_quiet

/-- A worker that waits for no attempt at the chunk up to this one any more. -/
def Worker.Past (i a : Nat) : Worker → Prop
  | .sending j b => j = i ∧ a < b
  | .waiting j b => j = i ∧ a ≤ b
  | _ => False

section Lost

variable {page : PageUpload} {config : AppConfig} {unlockState : UnlockState} {P : Primitives} {expiresAt : String}
  {system system' : UploadSystem} {deeds : PageRequest → Deed} {oracle : Nat → Choice} {dbOracle : Nat → Option String}
  {i a : Nat}

/-- The upload can only fail: a chunk is stored by an attempt that nobody waits for, or the page has given up. -/
structure Doomed (page : PageUpload) (config : AppConfig) (unlockState : UnlockState) (P : Primitives)
    (expiresAt : String) (i a : Nat) (system : UploadSystem) : Prop where
  incomplete : .complete ∉ system.sent
  lost : system.client.GaveUp ∨ ∃ deeds, page.Underway config unlockState P expiresAt system deeds ∧
    system.programs (.chunk i a) = .done () ∧ ∃ worker ∈ system.client.workers, worker.Past i a

theorem Worker.Past.not_resolved {worker : Worker} (h : worker.Past i a) : worker ≠ .resolved := by
  rintro rfl
  exact h

/-- The requests that a page that has given up sends are chunks. -/
theorem UploadClient.GaveUp.sends {client : UploadClient} (h : client.GaveUp) (k : Nat) :
    .complete ∉ (client.chunkStored k).2 := by
  unfold UploadClient.chunkStored
  split
  · simp
  · rcases UploadClient.joinWorkers_cases { client with workers := client.workers.set k .resolved }
      with hsame | ⟨huploading, -⟩
    · rw [hsame]
      simp
    · rcases h with h | h <;> cases h.symm.trans huploading

theorem UploadClient.giveUp_sends (client : UploadClient) : .complete ∉ client.giveUp.2 := by
  obtain ⟨totalChunks, nextChunkIndex, workers, phase⟩ := client
  cases phase <;> simp [UploadClient.giveUp]

theorem UploadClient.chunkFailed_sends (client : UploadClient) (k i a : Nat) (message : String) :
    .complete ∉ (client.chunkFailed k i a message).2 := by
  rcases client.chunkFailed_cases k i a message with ⟨-, heq⟩ | heq
  · rw [heq]
    simp
  · rw [heq]
    exact UploadClient.giveUp_sends _

/-- A worker is past the attempt after its next move as well, unless the upload fails. -/
theorem past_set {workers : List Worker} {k : Nat} {old new : Worker} (hk : workers[k]? = some old)
    (hnew : old.Past i a → new.Past i a) (hpast : ∃ worker ∈ workers, worker.Past i a) :
    ∃ worker ∈ workers.set k new, worker.Past i a := by
  obtain ⟨worker, hmem, hworker⟩ := hpast
  by_cases hsame : worker = old
  · subst hsame
    exact ⟨new, UploadClient.mem_set_self hk, hnew hworker⟩
  · exact ⟨worker, UploadClient.mem_set_of_ne hk hmem hsame, hworker⟩

theorem chunkStored_workers (client : UploadClient) (k : Nat) :
    ∃ new, (client.chunkStored k).1.workers = client.workers.set k new := by
  unfold UploadClient.chunkStored
  split
  · exact ⟨_, rfl⟩
  · rcases UploadClient.joinWorkers_cases { client with workers := client.workers.set k .resolved }
      with hsame | ⟨-, -, hjoined⟩
    · exact ⟨.resolved, by rw [hsame]⟩
    · exact ⟨.resolved, by rw [hjoined]⟩

/-- Once the page has asked for the completion, all workers are through. -/
def Asked (system : UploadSystem) : Prop :=
  .complete ∈ system.sent → system.client.phase ≠ .uploading ∧ ∀ worker ∈ system.client.workers, worker = .resolved

theorem Asked.advance (h : Asked system) (hstep : Advances (serverHandler oracle dbOracle) system system') :
    Asked system' := by
  have hunasked : ∀ {k : Nat} {worker : Worker}, system.client.workers[k]? = some worker → worker ≠ .resolved →
      .complete ∉ system.sent := fun hk hne hsent => hne ((h hsent).2 _ (List.mem_of_getElem? hk))
  cases hstep with
  | turn hsent hcall => exact h
  | @stored k i a hk hdone =>
      intro hmem
      rcases List.mem_append.mp hmem with hold | hnew
      · exact absurd hold (hunasked hk nofun)
      · show (system.client.chunkStored k).1.phase ≠ .uploading ∧ ∀ worker ∈ (system.client.chunkStored k).1.workers, _
        unfold UploadClient.chunkStored at hnew ⊢
        split at hnew
        · simp at hnew
        · next hnext =>
            rw [if_neg hnext]
            rcases UploadClient.joinWorkers_cases
              { system.client with workers := system.client.workers.set k .resolved } with hsame | ⟨-, hall, hjoined⟩
            · rw [hsame] at hnew
              simp at hnew
            · rw [hjoined]
              exact ⟨nofun, hall⟩
  | failed hk message =>
      exact fun hmem => ((List.mem_append.mp hmem).elim (hunasked hk nofun)
        (UploadClient.chunkFailed_sends _ _ _ _ _)).elim
  | resent hk =>
      exact fun hmem => ((List.mem_append.mp hmem).elim (hunasked hk nofun)
        (by simp [UploadClient.chunkResent])).elim
  | completed hphase hdone => exact fun hmem => ⟨nofun, (h hmem).2⟩
  | incomplete hphase =>
      refine fun hmem => (List.mem_append.mp hmem).elim (fun hold => ?_)
        fun hnew => absurd hnew (UploadClient.giveUp_sends _)
      rw [UploadSystem.react, UploadClient.giveUp, hphase]
      exact ⟨nofun, (h hold).2⟩
  | cancelled hphase => exact fun hmem => ⟨nofun, (h hmem).2⟩

theorem Doomed.advance (h : Doomed page config unlockState P expiresAt i a system)
    (hliteral : ∀ name ∈ stagingDir config page.session.uploadId, Ordinary name)
    (hapart : ¬ stagingDir config page.session.uploadId <+: page.target config)
    (hstep : Advances (serverHandler oracle dbOracle) system system') :
    Doomed page config unlockState P expiresAt i a system' := by
  rcases h.lost with hgave | ⟨deeds, hunderway, hdone, hpast⟩
  · refine ⟨?_, Or.inl (hstep.gaveUp hgave)⟩
    cases hstep with
    | turn hsent hcall | cancelled hphase => exact h.incomplete
    | stored hk hstored => exact fun hmem => (List.mem_append.mp hmem).elim h.incomplete (hgave.sends _)
    | failed hk message =>
        exact fun hmem => (List.mem_append.mp hmem).elim h.incomplete (UploadClient.chunkFailed_sends _ _ _ _ _)
    | resent hk => exact fun hmem => (List.mem_append.mp hmem).elim h.incomplete (by simp [UploadClient.chunkResent])
    | completed hphase hcomplete => exact h.incomplete
    | incomplete hphase =>
        exact fun hmem => (List.mem_append.mp hmem).elim h.incomplete (UploadClient.giveUp_sends _)
  · have hphase : system.client.phase = .uploading := by
      obtain ⟨worker, hmem, hworker⟩ := hpast
      exact hunderway.phase_of_mem hmem hworker.not_resolved
    -- Under way with a worker past the attempt, the page has not asked for the completion.
    have hstays : ∀ {deeds' : PageRequest → Deed}, page.Underway config unlockState P expiresAt system' deeds' →
        system'.programs (.chunk i a) = .done () → (∃ worker ∈ system'.client.workers, worker.Past i a) →
        Doomed page config unlockState P expiresAt i a system' := by
      intro deeds' hunderway' hdone' hpast'
      refine ⟨fun hsent => ?_, Or.inr ⟨deeds', hunderway', hdone', hpast'⟩⟩
      obtain ⟨worker, hmem, hworker⟩ := hpast'
      exact hunderway'.uploading hsent (hunderway'.phase_of_mem hmem hworker.not_resolved)
    cases hstep with
    | @turn request op next hsent hcall =>
        obtain ⟨deeds', hunderway'⟩ := hunderway.turn hliteral hapart oracle dbOracle hsent hcall
        refine hstays hunderway' ?_ hpast
        dsimp only
        rw [Function.update_of_ne, hdone]
        rintro rfl
        cases hcall.symm.trans hdone
    | @stored k j b hk hstored =>
        refine hstays (hunderway.stored hk hstored) hdone ?_
        obtain ⟨new, hworkers⟩ := chunkStored_workers system.client k
        show ∃ worker ∈ (system.client.chunkStored k).1.workers, _
        rw [hworkers]
        refine past_set hk (fun hold => ?_) hpast
        -- Two attempts at the chunk would have stored it.
        obtain ⟨rfl, hlater⟩ := hold
        exact absurd (hunderway.attempt_eq hphase hdone hstored) (Nat.ne_of_lt hlater)
    | @failed k j b hk message =>
        rcases system.client.chunkFailed_cases k j b message with ⟨-, heq⟩ | heq
        · rw [heq] at hstays ⊢
          exact hstays (hunderway.retried hk) hdone (past_set hk (fun hold => ⟨hold.1, hold.2.le⟩) hpast)
        · refine ⟨fun hmem => (List.mem_append.mp hmem).elim h.incomplete (UploadClient.chunkFailed_sends _ _ _ _ _),
            Or.inl ?_⟩
          rw [UploadSystem.react, heq]
          exact UploadClient.GaveUp.giveUp (by rw [hphase]; nofun)
    | @resent k j b hk =>
        exact hstays (hunderway.resent hk) hdone
          (past_set hk (fun hold => ⟨hold.1, Nat.lt_succ_of_le hold.2⟩) hpast)
    | completed hcompleting hcomplete => cases hcompleting.symm.trans hphase
    | incomplete hcompleting => cases hcompleting.symm.trans hphase
    | cancelled hcancelling => cases hcancelling.symm.trans hphase

end Lost

/-- A chunk that was stored, but whose attempt the page takes for failed, fails the upload. Every later attempt finds
its file there and is refused, so whatever happens the page never asks for the completion, nor reports success. -/
theorem lost_answer_fails_upload (P : Primitives) (crates : Crates) (config : AppConfig)
    (hmax : config.maxUploadBytes < 2 ^ 64) (unlockState : UnlockState) (page : PageUpload)
    (hroot : Ordinary page.session.targetId) (oracle : Nat → Choice) (dbOracle : Nat → Option String)
    (server started : Server) (hfree : server.1.tree.LinkFree)
    (hfresh : FreshUpload crates config server page.session.uploadId) (opened : Int) (info : InitUploadResult)
    (hopen : (initUpload crates config page.session.uploadId opened page.initParams).run
      (serverHandler oracle dbOracle) server = (.ok info, started))
    (events : List UploadEvent) (system : UploadSystem)
    (hrun : UploadRun (serverHandler oracle dbOracle) (UploadSystem.start page P crates config unlockState started)
      events system)
    (i a : Nat) (hdone : system.programs (.chunk i a) = .done ())
    (hpast : ∃ worker ∈ system.client.workers, worker.Past i a)
    (laterEvents : List UploadEvent) (later : UploadSystem)
    (hlater : UploadRun (serverHandler oracle dbOracle) system laterEvents later) :
    .complete ∉ later.sent ∧ later.client.phase ≠ .resolved := by
  obtain ⟨hcheck, -, -⟩ := initUpload_started hfresh hopen
  have hasked : Asked system := by
    refine hrun.invariant ?_ fun _ _ _ hbefore hstep => hbefore.advance (advances_of_step hstep)
    obtain ⟨count, -, hstart⟩ := start_eq page (checkInitUpload_pos hcheck)
    intro hmem
    simp [UploadSystem.start, hstart] at hmem
  have hstart : Doomed page config unlockState P info.expiresAt i a system := by
    refine ⟨fun hsent => ?_, (underway_along hfresh hfree hroot hmax hopen hrun).imp_right fun hunderway => ?_⟩
    · obtain ⟨worker, hmem, hworker⟩ := hpast
      exact hworker.not_resolved ((hasked hsent).2 worker hmem)
    · obtain ⟨deeds, hunderway⟩ := hunderway
      exact ⟨deeds, hunderway, hdone, hpast⟩
  have hdoomed := hlater.invariant hstart fun _ _ _ hbefore hstep =>
    hbefore.advance hfresh.resolved.ordinary target_apart (advances_of_step hstep)
  refine ⟨hdoomed.incomplete, fun hresolved => ?_⟩
  rcases hdoomed.lost with hgave | ⟨deeds, hunderway, -, worker, hmem, hworker⟩
  · rcases hgave with hgave | hgave <;> cases hgave.symm.trans hresolved
  · cases (hunderway.phase_of_mem hmem hworker.not_resolved).symm.trans hresolved

/-- The answer to the first chunk is lost, and the chunk is sent again. -/
theorem lost_answer_fails_upload_two :
    ∃ system later, UploadRun (serverHandler calmOracle fun _ => none) twoBytesStart
        (List.replicate 9 (.turn (.chunk 0 1)) ++ [.refused 0 "Network error"]) system ∧
      UploadRun (serverHandler calmOracle fun _ => none) system
        ([.resend 0] ++ List.replicate 3 (.turn (.chunk 0 2)) ++ [.answered 0]) later ∧
      .complete ∉ later.sent ∧ later.client.phase ≠ .resolved := by
  have hsteps : (twoBytesStart.steps (serverHandler calmOracle fun _ => none)
      (List.replicate 9 (.turn (.chunk 0 1)) ++ [.refused 0 "Network error"])).map
      (fun system => (Pool.succeeded (system.programs (.chunk 0 1)), system.client.workers,
        (system.steps (serverHandler calmOracle fun _ => none)
          ([.resend 0] ++ List.replicate 3 (.turn (.chunk 0 2)) ++ [.answered 0])).isSome)) =
      some (true, [.waiting 0 1, .sending 1 1], true) := by decide
  obtain ⟨system, hsystem, hfacts⟩ := Option.map_eq_some_iff.mp hsteps
  obtain ⟨hsucceeded, hworkers, hlater⟩ : Pool.succeeded (system.programs (.chunk 0 1)) = true ∧
      system.client.workers = [.waiting 0 1, .sending 1 1] ∧ (system.steps (serverHandler calmOracle fun _ => none)
        ([.resend 0] ++ List.replicate 3 (.turn (.chunk 0 2)) ++ [.answered 0])).isSome = true := by
    simpa only [Prod.mk.injEq] using hfacts
  obtain ⟨later, hlater⟩ := Option.isSome_iff_exists.mp hlater
  have hdone : system.programs (.chunk 0 1) = .done () := by
    cases hprogram : system.programs (.chunk 0 1) with
    | done value => rfl
    | fail error | call op next =>
        rw [hprogram] at hsucceeded
        cases hsucceeded
  have hrun := UploadSystem.run_of_steps _ Run.nil hsystem
  have hrun' := UploadSystem.run_of_steps _ Run.nil hlater
  refine ⟨system, later, hrun, hrun', ?_⟩
  exact lost_answer_fails_upload plainPrimitives sampleCrates sampleConfig (by decide) sampleUnlocked twoBytesPage
    (by simp [Ordinary, twoBytesPage, twoBytesSession]) calmOracle (fun _ => none) emptyServer _ emptyServer_linkFree
    emptyServer_fresh (-2) ⟨"u", 1, 2, 2, ""⟩ (Prod.ext (by decide) rfl) _ system hrun 0 1 hdone
    ⟨.waiting 0 1, by simp [hworkers], rfl, Nat.le_refl 1⟩ _ later hrun'

end IronDrive
