import IronDrive.DiskSteps
import IronDrive.Operations

/-! The deletion of a space while other calls on it are under way. The deletion removes the row, then the key, then the
directory; an upload looks the key up and joins its target before it makes the target's parents, so it can make the
directory of the space again after it was removed. -/

namespace IronDrive

open Lib FileTree FsService

/-- The disk, the session table and the store. -/
abbrev wholeSignature : Signature := fsSignature.sum (uploadsSignature.sum storeSignature)

abbrev WholeProgram (α : Type) : Type 1 := Program wholeSignature AppError α

abbrev Whole : Type := Disk × UploadsDb × Store

/-- The handler of these calls. A file may be removed while it is open, so reads may be stale. -/
def wholeHandler (oracle : Nat → Choice) (stale : Nat → Option Bytes) (dbOracle storeOracle : Nat → Option String) :
    Handler wholeSignature Whole :=
  Program.sumHandler (staleHandler oracle stale)
    (Program.sumHandler (uploadsHandler dbOracle) (storeHandler storeOracle))

def diskSide : fsSignature.Hom wholeSignature where
  op := .inl
  answer _ := id

def serverSide : serverSignature.Hom wholeSignature where
  op
    | .inl op => .inl op
    | .inr op => .inr (.inl op)
  answer
    | .inl _ => id
    | .inr _ => id

def serviceSide : serviceSignature.Hom wholeSignature where
  op
    | .inl op => .inl op
    | .inr op => .inr (.inr op)
  answer
    | .inl _ => id
    | .inr _ => id

/-- The calls on a space: its deletion, and those that may be under way meanwhile. An upload has the keys that were
in memory when it looked. -/
inductive SpaceCall
  | delete (userId : String)
  | createDirectory (userPath : String)
  | upload (unlockState : UnlockState) (nonce : FixedBytes 12) (userPath : String) (data : Bytes) (writeVerify : Bool)
  | complete (unlockState : UnlockState) (now : Int) (streamNonce : FixedBytes 7) (userId uploadId : String)
      (writeVerify : Bool)

def SpaceCall.program (P : Primitives) (crates : Crates) (config : AppConfig) (spaceId : String) :
    SpaceCall → WholeProgram Unit
  | delete userId => (SpaceService.deleteSpace config userId spaceId).via serviceSide
  | createDirectory userPath => do
      let _ ← (FsService.createSpaceDirectory config spaceId userPath).via diskSide
      return ()
  | upload unlockState nonce userPath data writeVerify => do
      let _ ← (uploadSpaceFile P crates.mimeFromFilename config unlockState spaceId nonce userPath data
        writeVerify).via diskSide
      return ()
  | complete unlockState now streamNonce userId uploadId writeVerify => do
      let _ ← (ChunkService.completeUpload crates config P unlockState now streamNonce
        ⟨userId, spaceId, "space", uploadId⟩ writeVerify).via serverSide
      return ()

/-- A root that resolves resolves to itself. -/
def Roots (root : Path) : (op : FsCall) → op.Answer → Prop
  | .canonicalize path, answer => path = root → ∀ place, (answer : Except IoError Path) = .ok place → place = root
  | _, _ => True

variable {P : Primitives} {crates : Crates} {config : AppConfig} {spaceId : String} {root : Path}

theorem lenient_beside (root : Path) : Lenient (fun _ => True) (Beside root) where
  reads op h := by cases op <;> trivial
  writes _ _ _ _ := trivial

theorem beside_dropLast {target : Path} (h : root <+: target) : Beside root (.createDirAll target.dropLast) := by
  obtain ⟨rest, rfl⟩ := h
  rcases List.eq_nil_or_concat rest with rfl | ⟨front, name, rfl⟩
  · rw [List.append_nil]
    exact Or.inl (List.dropLast_prefix root)
  · rw [List.concat_eq_append, ← List.append_assoc, List.dropLast_concat]
    exact Or.inr (List.prefix_append root front)

theorem safeJoin_beside (userPath : String) :
    (PathSafety.safeJoin root userPath).Within (Roots root) FsCall.ReadOnly fun target => root <+: target :=
  (safeJoin_within (R := fun _ => True) ⟨fun place hplace => ⟨hplace rfl place rfl, trivial⟩,
    fun _ _ _ _ => trivial, fun _ _ _ _ _ _ _ _ _ => trivial⟩ userPath).mono (fun _ => id) fun _ => And.left

abbrev WholeRoots (root : Path) : (op : wholeSignature.Op) → wholeSignature.Answer op → Prop :=
  Program.sumAnswers (Roots root) fun _ _ => True

abbrev WholeBeside (root : Path) : wholeSignature.Op → Prop := Program.sumOps (Beside root) fun _ => True

theorem via_diskSide {α : Type} {R : α → Prop} {program : FsProgram α}
    (h : program.Within (Roots root) (Beside root) R) :
    (program.via diskSide).Within (WholeRoots root) (WholeBeside root) R :=
  h.via diskSide (fun _ _ => id) fun _ => id

theorem deleteSpace_beside (userId : String) :
    ((SpaceService.deleteSpace config userId spaceId).via serviceSide).Within (WholeRoots root) (WholeBeside root)
      fun _ => True := by
  have honly : (SpaceService.deleteSpace config userId spaceId).Only
      (Program.sumOps (Beside root) fun _ => True) fun _ => True := by
    have hquery : (query (·.resolveUserPermission userId spaceId)).Only
        (Program.sumOps (Beside root) fun _ => True) fun _ => True :=
      ⟨trivial, fun _ => Program.only_ofExcept _⟩
    have hadmin : (SpaceService.requirePermission userId spaceId SpaceService.permAdmin).Only
        (Program.sumOps (Beside root) fun _ => True) fun _ => True := by
      refine hquery.bind fun found _ => (Program.only_okOr _ found).bind fun perm _ => ?_
      split <;> trivial
    refine hadmin.bind fun _ _ => ?_
    refine Program.Only.bind (R := fun _ => True) ⟨trivial, fun answer => ?_⟩ fun _ _ =>
      ⟨trivial, fun _ => ⟨trivial, fun _ => trivial⟩⟩
    cases answer with
    | error e => trivial
    | ok count =>
        show (if count = 0 then Program.fail .notFound else Program.done () : ServiceProgram Unit).Only _ _
        split <;> trivial
  refine (honly.within (A := Program.sumAnswers (Roots root) fun _ _ => True)).via serviceSide ?_ ?_
  · rintro (op | op) answer hanswer
    · exact hanswer
    · trivial
  · rintro (op | op) hop
    · exact hop
    · trivial

theorem completeUpload_beside (unlockState : UnlockState) (now : Int) (nonce : FixedBytes 7) (userId uploadId : String)
    (writeVerify : Bool) :
    ((ChunkService.completeUpload crates config P unlockState now nonce ⟨userId, spaceId, "space", uploadId⟩
      writeVerify).via serverSide).Within (WholeRoots (spaceRoot config spaceId))
        (WholeBeside (spaceRoot config spaceId)) fun _ => True := by
  have hwithin : (ChunkService.completeUpload crates config P unlockState now nonce
      ⟨userId, spaceId, "space", uploadId⟩ writeVerify).Within
        (Program.sumAnswers (Roots (spaceRoot config spaceId)) fun _ _ => True)
        (Program.sumOps (Beside (spaceRoot config spaceId)) fun _ => True) fun _ => True := by
    have hN := lenient_beside (spaceRoot config spaceId)
    have hloads : (ChunkService.requireSession crates now ⟨userId, spaceId, "space", uploadId⟩).Only
        (Program.sumOps (Beside (spaceRoot config spaceId)) fun _ => True) fun _ => True := by
      refine (requireSession_loads now _).mono (fun op hop => ?_) fun _ => id
      cases op with
      | inl op => exact hop.elim
      | inr op => trivial
    refine hloads.within.bind fun row _ => ?_
    refine (hN.readsOnly (checkChunksPresent_readsOnly _ 0)).within.inl.bind fun _ _ => ?_
    refine (uploadStreaming_within hN _ nonce _ _ writeVerify (safeJoin_beside row.targetPath)
      (fun _ => beside_dropLast) fun _ => id).inl.bind fun upload _ => ?_
    exact ⟨trivial, fun _ _ => ⟨trivial, fun _ _ => trivial⟩⟩
  refine hwithin.via serverSide ?_ ?_
  · rintro (op | op) answer hanswer
    · exact hanswer
    · trivial
  · rintro (op | op) hop
    · exact hop
    · trivial

/-- All that a call on a space makes lies on the way to its directory, or below. -/
theorem SpaceCall.beside (call : SpaceCall) :
    (call.program P crates config spaceId).Within (WholeRoots (spaceRoot config spaceId))
      (WholeBeside (spaceRoot config spaceId)) fun _ => True := by
  have hN := lenient_beside (spaceRoot config spaceId)
  cases call with
  | delete userId => exact deleteSpace_beside userId
  | createDirectory userPath =>
      exact (via_diskSide (createDirectoryIn_within hN (safeJoin_beside userPath) fun _ => Or.inr)).bind
        fun _ _ => trivial
  | upload unlockState nonce userPath data writeVerify =>
      exact (via_diskSide (uploadOwned_within hN _ nonce data writeVerify (safeJoin_beside userPath)
        (fun _ => beside_dropLast) fun _ => id)).bind fun _ _ => trivial
  | complete unlockState now streamNonce userId uploadId writeVerify =>
      exact (completeUpload_beside unlockState now streamNonce userId uploadId writeVerify).bind fun _ _ => trivial

/-! ### The directory after its removal -/

variable {ι : Type} [DecidableEq ι] {oracle : Nat → Choice} {stale : Nat → Option Bytes}
  {dbOracle storeOracle : Nat → Option String}

/-- The removal of the space's directory, when it succeeded. -/
def removesSpace (root : Path) : Event wholeSignature → Bool
  | ⟨.inl (.removeDirAll path), answer⟩ => path = root && (Except.toOption (answer : Except IoError Unit)).isSome
  | _ => false

/-- A call that makes the directory of the space, or anything below it, finds the directory there. -/
def MakesInside (root : Path) (_ : ι) (whole : Whole) : wholeSignature.Op → Prop
  | .inl op => Restores root op → whole.1.tree.node root ≠ none
  | .inr _ => True

instance decidableRestores (root : Path) : DecidablePred (Restores root)
  | .createDirAll _ => inferInstanceAs (Decidable (_ <+: _))
  | .create _ | .createNew _ => inferInstanceAs (Decidable (_ = _))
  | .canonicalize _ | .symlinkMetadata _ | .metadata _ | .tryExists _ | .readDir _ | .removeDirAll _ | .openFile _
  | .readFile _ | .fileMetadata _ | .read _ _ _ | .readExact _ _ _ | .writeAll _ _ _ | .flush _ | .syncData _ =>
      inferInstanceAs (Decidable False)

instance decidableMakesInside (root : Path) (i : ι) (whole : Whole) : DecidablePred (MakesInside root i whole)
  | .inl _ => inferInstanceAs (Decidable (_ → _))
  | .inr _ => inferInstanceAs (Decidable True)

/-- Once it has been removed the directory is missing. -/
structure Removed (root : Path) (whole : Whole) (past : List (ι × Event wholeSignature)) : Prop where
  straight : whole.1.tree.Straight root
  missing : (past.any fun event => removesSpace root event.2) = true → whole.1.tree.node root = none

theorem missing_of_removesSpace {op : FsCall} {t : FileTree} {choice : Choice} (h : t.Straight root)
    (hroot : root ≠ []) (hremoves : removesSpace root ⟨.inl op, (op.perform choice t).1⟩ = true) :
    (op.perform choice t).2.node root = none := by
  cases op with
  | removeDirAll path =>
      simp only [removesSpace, Bool.and_eq_true, decide_eq_true_eq] at hremoves
      obtain ⟨rfl, hok⟩ := hremoves
      refine missing_of_removeDirAll h hroot ?_
      cases hanswer : (FsCall.perform choice (.removeDirAll path) t).1 with
      | error e =>
          rw [hanswer] at hok
          cases hok
      | ok u => rfl
  | _ => cases hremoves

theorem removesSpace_stale {op : FsCall} {disk : Disk}
    (h : removesSpace root ⟨.inl op, (staleHandler oracle stale op disk).1⟩ = true) :
    removesSpace root ⟨.inl op, (op.perform (oracle disk.tick) disk.tree).1⟩ = true := by
  cases op with
  | read place offset limit => cases h
  | _ => exact h

omit [DecidableEq ι] in
theorem Removed.step (hroot : root ≠ []) {whole : Whole} {past : List (ι × Event wholeSignature)} (i : ι)
    {op : wholeSignature.Op} (hop : WholeBeside root op) (hinside : MakesInside root i whole op)
    (h : Removed root whole past) :
    Removed root (wholeHandler oracle stale dbOracle storeOracle op whole).2
      (past ++ [(i, ⟨op, (wholeHandler oracle stale dbOracle storeOracle op whole).1⟩)]) := by
  cases op with
  | inr op =>
      refine ⟨h.straight, fun hremoved => h.missing ?_⟩
      simpa [removesSpace] using hremoved
  | inl op =>
      have hdisk : (wholeHandler oracle stale dbOracle storeOracle (.inl op) whole).2.1 =
          (fsHandler oracle op whole.1).2 := staleHandler_disk oracle stale op whole.1
      refine ⟨?_, fun hremoved => ?_⟩
      · rw [hdisk]
        exact straight_perform h.straight _ op
      rw [hdisk]
      simp only [List.any_append, List.any_cons, List.any_nil, Bool.or_false, Bool.or_eq_true] at hremoved
      rcases hremoved with hpast | hlast
      · have hnone := h.missing hpast
        exact missing_perform h.straight hnone hop fun hrestores => hinside hrestores hnone
      · exact missing_of_removesSpace h.straight hroot (removesSpace_stale hlast)

/-- The calls on a space, interleaved along a schedule. -/
def callsOnSpace (P : Primitives) (crates : Crates) (config : AppConfig) (spaceId : String) (calls : ι → SpaceCall)
    (i : ι) : WholeProgram Unit :=
  (calls i).program P crates config spaceId

/-- A deleted space stays deleted on disk in every run, under any faults, in which no call makes the directory of the
space, or anything in it, while that directory is missing. -/
theorem space_stays_deleted (P : Primitives) (crates : Crates) (config : AppConfig) (spaceId : String) (whole : Whole)
    (hord : ∀ name ∈ spaceRoot config spaceId, Ordinary name)
    (hdir : whole.1.tree.node (spaceRoot config spaceId) = some .dir) (calls : ι → SpaceCall)
    (oracle : Nat → Choice) (stale : Nat → Option Bytes) (dbOracle storeOracle : Nat → Option String)
    (schedule : List ι)
    (hinside : Pool.Along (wholeHandler oracle stale dbOracle storeOracle)
      (MakesInside (spaceRoot config spaceId)) schedule (callsOnSpace P crates config spaceId calls) whole)
    (hremoved : ((Pool.trace (wholeHandler oracle stale dbOracle storeOracle) schedule
      (callsOnSpace P crates config spaceId calls) whole).any
        fun event => removesSpace (spaceRoot config spaceId) event.2) = true)
    (p : Path) (hp : spaceRoot config spaceId <+: p) :
    (Pool.run (wholeHandler oracle stale dbOracle storeOracle) schedule (callsOnSpace P crates config spaceId calls)
      whole).2.1.tree.node p = none := by
  have hroot : spaceRoot config spaceId ≠ [] := by simp [spaceRoot]
  have hafter : Removed (spaceRoot config spaceId) _ ([] ++ _) :=
    Pool.invariant_along (A := WholeRoots (spaceRoot config spaceId))
      (P := fun _ => WholeBeside (spaceRoot config spaceId)) (I := Removed (spaceRoot config spaceId))
      (fun i op whole past _ h => by
        cases op with
        | inr op => trivial
        | inl op =>
            cases op with
            | canonicalize path =>
                rintro rfl place hplace
                exact canonicalize_of_straight h.straight ((guard_accounted _ _).ok place hplace)
            | _ => trivial)
      (fun i op whole past hop hmakes h => h.step hroot i hop hmakes) schedule _ whole [] hinside
      (fun i => (calls i).beside) ⟨straight_of_dir hord hdir, nofun⟩
  rw [List.nil_append] at hafter
  have hnone := hafter.missing hremoved
  obtain ⟨rest, rfl⟩ := hp
  by_cases hrest : rest = []
  · rw [hrest, List.append_nil]
    exact hnone
  · exact node_append_of_not_dir (by rw [hnone]; simp) hrest

/-- A server on which Alice has a space. -/
def photosWhole : Whole :=
  let site := calmServeAll sampleBackend (firstSite ⟨.empty, 0⟩)
    [sampleRequest "" "alice" (.register [] "alice" "alice@example.com" "password"),
      sampleRequest "alice" "photos" (.createSpace "Photos")]
  (site.1, ⟨[], 0⟩, site.2)

/-- Alice deletes the space while a file is uploaded into it. -/
def deletedWhileUploading : Bool → SpaceCall
  | false => .delete "alice"
  | true => .upload sampleUnlocked ⟨List.replicate 12 0, twelve_zeros⟩ "docs/a" [7] false

abbrev calmWhole : Handler wholeSignature Whole := wholeHandler calmOracle (fun _ => none) (fun _ => none) fun _ => none

abbrev photosCalls : Bool → WholeProgram Unit :=
  callsOnSpace plainPrimitives sampleCrates sampleConfig "photos" deletedWhileUploading

/-- The upload comes first. -/
theorem space_stays_deleted_photos :
    (Pool.run calmWhole (List.replicate 12 true ++ List.replicate 4 false) photosCalls photosWhole).2.1.tree.node
      (spaceRoot sampleConfig "photos" ++ ["docs", "a"]) = none :=
  space_stays_deleted plainPrimitives sampleCrates sampleConfig "photos" photosWhole
    (by simp [spaceRoot, sampleConfig, Ordinary]) (by decide +kernel) deletedWhileUploading calmOracle (fun _ => none)
    (fun _ => none) (fun _ => none) _ (by decide +kernel) (by decide +kernel) _ (List.prefix_append _ _)

/-- The deletion comes between the joining of the target and the making of its parents. -/
def deletedBetween : List Bool := List.replicate 2 true ++ List.replicate 4 false ++ List.replicate 10 true

/-- Both calls return `Ok`, and the space has a directory and a file again. -/
theorem space_comes_back :
    (∀ i, Pool.succeeded ((Pool.run calmWhole deletedBetween photosCalls photosWhole).1 i) = true) ∧
    ((Pool.trace calmWhole deletedBetween photosCalls photosWhole).any
      fun event => removesSpace (spaceRoot sampleConfig "photos") event.2) = true ∧
    (Pool.run calmWhole deletedBetween photosCalls photosWhole).2.1.tree.paths =
      [[], ["spaces"], ["spaces", "photos"], ["spaces", "photos", "docs"], ["spaces", "photos", "docs", "a"]] := by
  refine ⟨?_, ?_, ?_⟩
  · decide +kernel
  · decide +kernel
  · decide +kernel

end IronDrive
