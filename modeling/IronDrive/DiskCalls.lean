import IronDrive.Disk

/-! The async file API as the services call it, and one rule for each call: what it answers and what it
leaves on the disk when the operating system reports no error of its own. -/

namespace IronDrive

open Lib FileTree

/-- A program over the filesystem that fails with an application error. -/
abbrev FsProgram (α : Type) : Type := Program fsSignature AppError α

/-- One call, its answer as the file API returns it. -/
def fsCall (op : FsCall) : FsProgram op.Answer := Program.ask (S := fsSignature) op

/-- An open file: the place it was opened at and the cursor of its handle. -/
structure OpenFile where
  place : Path
  cursor : Nat
  deriving DecidableEq

/-- The `?` after a call whose error is mapped. -/
def attempt {α : Type} (onError : IoError → AppError) : Except IoError α → FsProgram α
  | .ok value => .done value
  | .error error => .fail (onError error)

def createDirAll (path : Path) (onError : IoError → AppError) : FsProgram Unit := do
  attempt onError (← fsCall (.createDirAll path))

def createFile (path : Path) (onError : IoError → AppError) : FsProgram OpenFile := do
  let place ← attempt onError (← fsCall (.create path))
  return ⟨place, 0⟩

def openFile (path : Path) (onError : IoError → AppError) : FsProgram OpenFile := do
  let place ← attempt onError (← fsCall (.openFile path))
  return ⟨place, 0⟩

def readFile (path : Path) (onError : IoError → AppError) : FsProgram Bytes := do
  attempt onError (← fsCall (.readFile path))

def metadata (path : Path) (onError : IoError → AppError) : FsProgram Metadata := do
  attempt onError (← fsCall (.metadata path))

namespace OpenFile

def metadata (file : OpenFile) (onError : IoError → AppError) : FsProgram Metadata := do
  attempt onError (← fsCall (.fileMetadata file.place))

def read (file : OpenFile) (limit : Nat) (onError : IoError → AppError) :
    FsProgram (Bytes × OpenFile) := do
  let bytes ← attempt onError (← fsCall (.read file.place file.cursor limit))
  return (bytes, { file with cursor := file.cursor + bytes.length })

def readExact (file : OpenFile) (count : Nat) (onError : IoError → AppError) :
    FsProgram (Bytes × OpenFile) := do
  let bytes ← attempt onError (← fsCall (.readExact file.place file.cursor count))
  return (bytes, { file with cursor := file.cursor + count })

/-- `write_all` where a failed write ends the program whichever call reports it, this one or the next: nothing is
written after it. -/
def writeAll (file : OpenFile) (data : Bytes) (onError : IoError → AppError) : FsProgram OpenFile := do
  attempt onError (← fsCall (.writeAll file.place file.cursor data))
  return { file with cursor := file.cursor + data.length }

/-- The most that a file takes into its buffer at once. -/
def maxBufSize : Nat := 2 * 1024 * 1024

/-- Hand a buffer over to a write in the background; its answer comes with the next call. -/
def writeLast (file : OpenFile) (data : Bytes) : FsProgram (OpenFile × Except IoError Unit) := do
  let answer ← fsCall (.writeAll file.place file.cursor data)
  return ({ file with cursor := file.cursor + data.length }, answer)

/-- `write_all` buffer by buffer: it waits for each write before the next, and leaves the last to the flush. -/
def writeBuffered (file : OpenFile) (data : Bytes) (onError : IoError → AppError) :
    FsProgram (OpenFile × Except IoError Unit) :=
  if data.length ≤ maxBufSize then file.writeLast data
  else do
    let whole := maxBufSize * ((data.length - 1) / maxBufSize)
    let file ← file.writeAll (data.take whole) onError
    file.writeLast (data.drop whole)

def flush (file : OpenFile) (onError : IoError → AppError) : FsProgram Unit := do
  attempt onError (← fsCall (.flush file.place))

/-- The flush after a write in the background reports what has stopped it. -/
def flushAfter (file : OpenFile) (written : Except IoError Unit) (onError : IoError → AppError) : FsProgram Unit := do
  attempt onError written
  file.flush onError

def syncData (file : OpenFile) (onError : IoError → AppError) : FsProgram Unit := do
  attempt onError (← fsCall (.syncData file.place))

end OpenFile

/-- The account of calls that do not fail for reasons outside the tree. -/
abbrev Quietly : (op : FsCall) → FileTree → op.Answer → FileTree → Prop := Performs Choice.Quiet

variable {t : FileTree} {path place : Path} {onError : IoError → AppError}

@[simp] theorem guard_of_quiet {α : Type} {choice : Choice} (h : choice.Quiet)
    (result : Except IoErrorKind α) : choice.guard result = result.mapError IoError.ofKind := by
  rw [Choice.guard, h]

/-- The error of a failing call, as the caller sees it. -/
def raised {α : Type} (onError : IoError → AppError) (result : Except IoErrorKind α) : Except AppError α :=
  result.mapError fun kind => onError (IoError.ofKind kind)

@[simp] theorem raised_ok {α : Type} (value : α) : raised onError (.ok value) = .ok value := rfl

@[simp] theorem raised_error {α : Type} (kind : IoErrorKind) :
    raised (α := α) onError (.error kind) = .error (onError (IoError.ofKind kind)) := rfl

theorem attempt_stops {α : Type} (result : Except IoErrorKind α) :
    (attempt onError (result.mapError IoError.ofKind)).Stops Quietly t (raised onError result) t := by
  cases result with
  | ok value => exact Program.stops_done value t
  | error kind => exact Program.stops_fail _ t

/-- A call whose answer does not depend on the oracle's choice. -/
theorem fsCall_stops {op : FsCall} {answer : op.Answer} {t' : FileTree}
    (h : ∀ choice : Choice, choice.Quiet → op.perform choice t = (answer, t')) :
    (fsCall op).Stops Quietly t (.ok answer) t' := by
  intro answer' t'' h
  obtain ⟨choice, hquiet, hperform⟩ := h
  rw [h choice hquiet] at hperform
  obtain ⟨rfl, rfl⟩ := hperform
  exact ⟨rfl, rfl⟩

theorem readFile_stops (t : FileTree) (path : Path) (onError : IoError → AppError) :
    (readFile path onError).Stops Quietly t (raised onError ((t.fileAt path).map Prod.snd)) t := by
  intro answer t' h
  obtain ⟨choice, hquiet, hperform⟩ := h
  simp only [FsCall.perform, guard_of_quiet hquiet] at hperform
  obtain ⟨rfl, rfl⟩ := hperform
  exact attempt_stops _

theorem metadata_stops (t : FileTree) (path : Path) (onError : IoError → AppError) :
    (metadata path onError).Stops Quietly t (raised onError (FsCall.stat t path)) t := by
  intro answer t' h
  obtain ⟨choice, hquiet, hperform⟩ := h
  simp only [FsCall.perform, guard_of_quiet hquiet] at hperform
  obtain ⟨rfl, rfl⟩ := hperform
  exact attempt_stops _

theorem openFile_stops (t : FileTree) (path : Path) (onError : IoError → AppError) :
    (openFile path onError).Stops Quietly t
      (raised onError ((t.canonicalize path).map fun place => ⟨place, 0⟩)) t := by
  intro answer t' h
  obtain ⟨choice, hquiet, hperform⟩ := h
  simp only [FsCall.perform, guard_of_quiet hquiet] at hperform
  obtain ⟨rfl, rfl⟩ := hperform
  cases t.canonicalize path with
  | ok place => exact ⟨rfl, rfl⟩
  | error kind => exact ⟨rfl, rfl⟩

theorem createFile_stops (h : t.createPlace path = .ok place) :
    (createFile path onError).Stops Quietly t (.ok ⟨place, 0⟩) (t.put place (.file [])) := by
  intro answer t' h
  obtain ⟨choice, hquiet, hperform⟩ := h
  simp only [FsCall.perform, guard_of_quiet hquiet, h, Except.mapError] at hperform
  obtain ⟨rfl, rfl⟩ := hperform
  exact ⟨rfl, rfl⟩

theorem createDirAll_stops {made : FileTree} (h : t.createDirs [] path = .ok made) :
    (createDirAll path onError).Stops Quietly t (.ok ()) made := by
  intro answer t' h
  obtain ⟨choice, hquiet, hperform⟩ := h
  have hfault : choice.fault = none := hquiet
  simp only [FsCall.perform, hfault, h] at hperform
  obtain ⟨rfl, rfl⟩ := hperform
  exact ⟨rfl, rfl⟩

theorem stat_of_fileAt {content : Bytes} (h : t.fileAt path = .ok (place, content)) :
    FsCall.stat t path = .ok ⟨.file, content.length⟩ := by
  obtain ⟨hplace, hnode⟩ := locate_of_fileAt h
  simp [FsCall.stat, hplace, hnode, bind, Except.bind, pure, Except.pure, Metadata.ofNode]

theorem canonicalize_of_fileAt {content : Bytes} (h : t.fileAt path = .ok (place, content)) :
    t.canonicalize path = .ok place := by
  obtain ⟨hplace, hnode⟩ := locate_of_fileAt h
  simp [canonicalize, hplace, hnode, bind, Except.bind, pure, Except.pure]

theorem readFile_stops_of_fileAt {content : Bytes} (h : t.fileAt path = .ok (place, content))
    (onError : IoError → AppError) : (readFile path onError).Stops Quietly t (.ok content) t := by
  have hread := readFile_stops t path onError
  rwa [h] at hread

theorem metadata_stops_of_fileAt {content : Bytes} (h : t.fileAt path = .ok (place, content))
    (onError : IoError → AppError) :
    (metadata path onError).Stops Quietly t (.ok ⟨.file, content.length⟩) t := by
  have hmeta := metadata_stops t path onError
  rwa [stat_of_fileAt h] at hmeta

theorem openFile_stops_of_fileAt {content : Bytes} (h : t.fileAt path = .ok (place, content))
    (onError : IoError → AppError) : (openFile path onError).Stops Quietly t (.ok ⟨place, 0⟩) t := by
  have hopen := openFile_stops t path onError
  rwa [canonicalize_of_fileAt h] at hopen

namespace OpenFile

variable {file : OpenFile} {content : Bytes}

theorem metadata_stops (h : t.node file.place = some (.file content)) :
    (file.metadata onError).Stops Quietly t (.ok ⟨.file, content.length⟩) t := by
  intro answer t' h
  obtain ⟨choice, hquiet, hperform⟩ := h
  simp only [FsCall.perform, guard_of_quiet hquiet, h] at hperform
  obtain ⟨rfl, rfl⟩ := hperform
  exact ⟨rfl, rfl⟩

theorem flush_stops : (file.flush onError).Stops Quietly t (.ok ()) t := by
  intro answer t' h
  obtain ⟨choice, hquiet, hperform⟩ := h
  simp only [FsCall.perform, guard_of_quiet hquiet] at hperform
  obtain ⟨rfl, rfl⟩ := hperform
  exact ⟨rfl, rfl⟩

theorem syncData_stops : (file.syncData onError).Stops Quietly t (.ok ()) t := by
  intro answer t' h
  obtain ⟨choice, hquiet, hperform⟩ := h
  simp only [FsCall.perform, guard_of_quiet hquiet] at hperform
  obtain ⟨rfl, rfl⟩ := hperform
  exact ⟨rfl, rfl⟩

theorem writeAll_stops (file : OpenFile) (onError : IoError → AppError)
    (h : t.node file.place = some (.file content)) (data : Bytes) :
    (file.writeAll data onError).Stops Quietly t (.ok { file with cursor := file.cursor + data.length })
      (t.put file.place (.file (writeAt content file.cursor data))) := by
  intro answer t' h
  obtain ⟨choice, hquiet, hperform⟩ := h
  have hfault : choice.fault = none := hquiet
  simp only [FsCall.perform, guard_of_quiet hquiet, h, hfault, if_true] at hperform
  obtain ⟨rfl, rfl⟩ := hperform
  exact ⟨rfl, rfl⟩

theorem writeLast_stops (file : OpenFile) (h : t.node file.place = some (.file content)) (data : Bytes) :
    (file.writeLast data).Stops Quietly t (.ok ({ file with cursor := file.cursor + data.length }, .ok ()))
      (t.put file.place (.file (writeAt content file.cursor data))) := by
  intro answer t' h
  obtain ⟨choice, hquiet, hperform⟩ := h
  have hfault : choice.fault = none := hquiet
  simp only [FsCall.perform, guard_of_quiet hquiet, h, hfault, if_true] at hperform
  obtain ⟨rfl, rfl⟩ := hperform
  exact ⟨rfl, rfl⟩

theorem readExact_stops (file : OpenFile) (onError : IoError → AppError)
    (h : t.node file.place = some (.file content)) {count : Nat} (hcount : file.cursor + count ≤ content.length) :
    (file.readExact count onError).Stops Quietly t
      (.ok (slice content file.cursor (file.cursor + count),
        { file with cursor := file.cursor + count })) t := by
  intro answer t' h
  obtain ⟨choice, hquiet, hperform⟩ := h
  have hle : count ≤ (content.drop file.cursor).length := by rw [List.length_drop]; omega
  simp only [FsCall.perform, guard_of_quiet hquiet, FsCall.rest, h, Except.bind, FsCall.readWhole,
    if_pos hle] at hperform
  obtain ⟨rfl, rfl⟩ := hperform
  rw [slice, Nat.add_sub_cancel_left]
  exact ⟨rfl, rfl⟩

theorem readExact_stops_eof (file : OpenFile) (onError : IoError → AppError)
    (h : t.node file.place = some (.file content)) {count : Nat} (hpos : 0 < count)
    (hcount : content.length < file.cursor + count) :
    (file.readExact count onError).Stops Quietly t (.error (onError (.ofKind .unexpectedEof))) t := by
  intro answer t' h
  obtain ⟨choice, hquiet, hperform⟩ := h
  have hlt : ¬ count ≤ (content.drop file.cursor).length := by rw [List.length_drop]; omega
  simp only [FsCall.perform, guard_of_quiet hquiet, FsCall.rest, h, Except.bind, FsCall.readWhole,
    if_neg hlt] at hperform
  obtain ⟨rfl, rfl⟩ := hperform
  exact ⟨rfl, rfl⟩

/-- A read before the end of the file returns between one byte and what was asked for. -/
theorem read_ensures (h : t.node file.place = some (.file content)) {limit : Nat} (hlimit : 0 < limit)
    (hcursor : file.cursor < content.length) {Q : Except AppError (Bytes × OpenFile) → FileTree → Prop}
    (hQ : ∀ n, 0 < n → n ≤ limit → file.cursor + n ≤ content.length →
      Q (.ok (slice content file.cursor (file.cursor + n), { file with cursor := file.cursor + n })) t) :
    (file.read limit onError).Ensures Quietly t Q := by
  intro answer t' h
  obtain ⟨choice, hquiet, hperform⟩ := h
  simp only [FsCall.perform, guard_of_quiet hquiet, FsCall.rest, h, Except.map, Except.mapError] at hperform
  obtain ⟨rfl, rfl⟩ := hperform
  have hlen : (FsCall.readSome choice limit (content.drop file.cursor)).length =
      min (min limit (choice.amount + 1)) (content.length - file.cursor) := by
    rw [FsCall.readSome, List.length_take, List.length_drop]
  have hslice : FsCall.readSome choice limit (content.drop file.cursor) =
      slice content file.cursor
        (file.cursor + (FsCall.readSome choice limit (content.drop file.cursor)).length) := by
    rw [slice, Nat.add_sub_cancel_left, FsCall.readSome, List.length_take, List.take_eq_take_min]
  have hfinal := hQ (FsCall.readSome choice limit (content.drop file.cursor)).length
    (by omega) (by omega) (by omega)
  rw [← hslice] at hfinal
  exact hfinal

end OpenFile

/-- An answer the tree accounts for: a value is the tree's, and so is an error of kind `NotFound`, since
the operating system's own errors have another kind. -/
structure Accounted {α : Type} (result : Except IoErrorKind α) (answer : Except IoError α) : Prop where
  ok : ∀ value, answer = .ok value → result = .ok value
  notFound : ∀ error, answer = .error error → error.kind = .notFound → result = .error .notFound

theorem guard_accounted {α : Type} (choice : Choice) (result : Except IoErrorKind α) :
    Accounted result (choice.guard result) := by
  unfold Choice.guard
  cases choice.fault with
  | some message =>
      refine ⟨fun value h => (by cases h), fun error h hkind => ?_⟩
      cases h
      cases hkind
  | none =>
      cases result with
      | ok found => exact ⟨fun value h => (by cases h; rfl), fun error h => (by cases h)⟩
      | error kind =>
          refine ⟨fun value h => (by cases h), fun error h hkind => ?_⟩
          cases h
          rw [← hkind]
          rfl

variable {α : Type} {P : Choice → Prop} {Q : Except AppError α → FileTree → Prop}

theorem symlinkMetadata_ensures {f : Except IoError Metadata → FsProgram α}
    (h : ∀ answer, Accounted (FsCall.lstat t path) answer → (f answer).Ensures (Performs P) t Q) :
    ((fsCall (.symlinkMetadata path)).bind f).Ensures (Performs P) t Q := by
  intro answer t' h
  obtain ⟨choice, -, hperform⟩ := h
  obtain ⟨rfl, rfl⟩ := Prod.mk.inj hperform
  exact h _ (guard_accounted choice _)

theorem canonicalize_ensures {f : Except IoError Path → FsProgram α}
    (h : ∀ answer, Accounted (t.canonicalize path) answer → (f answer).Ensures (Performs P) t Q) :
    ((fsCall (.canonicalize path)).bind f).Ensures (Performs P) t Q := by
  intro answer t' h
  obtain ⟨choice, -, hperform⟩ := h
  obtain ⟨rfl, rfl⟩ := Prod.mk.inj hperform
  exact h _ (guard_accounted choice _)

theorem lstat_eq_notFound {t : FileTree} {base : Path} {name : String} (h : t.Resolved base)
    (hnode : t.node base ≠ none)
    (hstat : FsCall.lstat t (base ++ [name]) = .error .notFound) :
    t.node base = some .dir ∧ t.node (base ++ [name]) = none := by
  simp only [FsCall.lstat, locateEntry, List.getLast?_append_of_ne_nil, ne_eq, List.cons_ne_self,
    not_false_eq_true, List.getLast?_singleton, List.dropLast_concat, locate_of_resolved h, bind,
    Except.bind] at hstat
  cases hbase : t.node base with
  | none => exact absurd hbase hnode
  | some n =>
      cases n with
      | dir =>
          refine ⟨rfl, ?_⟩
          rw [hbase] at hstat
          cases hentry : t.node (base ++ [name]) with
          | none => rfl
          | some m => simp [hentry, pure, Except.pure] at hstat
      | file content =>
          rw [hbase] at hstat
          cases hstat
      | symlink absolute target => exact absurd hbase (h.not_symlink absolute target)

/-- A program whose every call leaves the tree alone. -/
abbrev ReadsOnly {α : Type} (program : FsProgram α) : Prop :=
  program.Only FsCall.ReadOnly fun _ => True

theorem attempt_only {N : FsCall → Prop} (onError : IoError → AppError) (answer : Except IoError α) :
    (attempt onError answer).Only N fun _ => True := by
  cases answer <;> trivial

theorem fsCall_only {N : FsCall → Prop} (op : FsCall) (h : N op) : (fsCall op).Only N fun _ => True :=
  Program.only_ask h

/-- A call followed by the `?` on its answer. -/
theorem fsCall_attempt_only {N : FsCall → Prop} {β : Type} (op : FsCall) (h : N op)
    (onError : IoError → AppError) (as : op.Answer → Except IoError β) :
    ((fsCall op).bind fun answer => attempt onError (as answer)).Only N fun _ => True :=
  (fsCall_only op h).bind fun answer _ => attempt_only onError (as answer)

/-- The writes of a chunk are calls to its file. -/
theorem writeBuffered_only {N : FsCall → Prop} {file : OpenFile}
    (h : ∀ offset data, N (.writeAll file.place offset data)) (data : Bytes) (onError : IoError → AppError) :
    (file.writeBuffered data onError).Only N fun written => written.1.place = file.place := by
  have hlast : ∀ (file' : OpenFile) (data : Bytes), file'.place = file.place →
      (file'.writeLast data).Only N fun written => written.1.place = file.place := by
    intro file' data hplace
    refine (fsCall_only (.writeAll file'.place file'.cursor data) (hplace ▸ h _ _)).bind fun _ _ => ?_
    exact hplace
  unfold OpenFile.writeBuffered
  split
  · exact hlast file data rfl
  · refine Program.Only.bind (R := fun file' => file'.place = file.place) ?_ fun file' hplace => hlast file' _ hplace
    exact (fsCall_attempt_only (.writeAll file.place file.cursor _) (h _ _) onError id).bind fun _ _ => rfl

theorem readFile_readsOnly (path : Path) (onError : IoError → AppError) :
    ReadsOnly (readFile path onError) :=
  fsCall_attempt_only (.readFile path) trivial onError id

theorem metadata_readsOnly (path : Path) (onError : IoError → AppError) :
    ReadsOnly (metadata path onError) :=
  fsCall_attempt_only (.metadata path) trivial onError id

theorem openFile_readsOnly (path : Path) (onError : IoError → AppError) :
    ReadsOnly (openFile path onError) :=
  (fsCall_attempt_only (.openFile path) trivial onError id).bind fun _ _ => trivial

namespace OpenFile

theorem read_readsOnly (file : OpenFile) (limit : Nat) (onError : IoError → AppError) :
    ReadsOnly (file.read limit onError) :=
  (fsCall_attempt_only (.read file.place file.cursor limit) trivial onError id).bind
    fun _ _ => trivial

theorem readExact_readsOnly (file : OpenFile) (count : Nat) (onError : IoError → AppError) :
    ReadsOnly (file.readExact count onError) :=
  (fsCall_attempt_only (.readExact file.place file.cursor count) trivial onError id).bind
    fun _ _ => trivial

end OpenFile

/-! ### Transfer to the handler -/

/-- An operating system that reports no error and reads in large pieces. -/
def calmOracle : Nat → Choice := fun _ => ⟨none, 2 ^ 20⟩

theorem calmOracle_quiet : QuietOracle calmOracle := fun _ => rfl

theorem fsHandler_performs {oracle : Nat → Choice} {P : Choice → Prop} (h : ∀ tick, P (oracle tick))
    (op : FsCall) (disk : Disk) :
    Performs P op disk.tree (fsHandler oracle op disk).1 (fsHandler oracle op disk).2.tree :=
  ⟨oracle disk.tick, h _, rfl⟩

/-- What a program ensures under an account of the calls holds of its run under every oracle in it. -/
theorem run_of_ensures {E α : Type} {oracle : Nat → Choice} {P : Choice → Prop}
    (h : ∀ tick, P (oracle tick)) {program : Program fsSignature E α} {disk : Disk}
    {Q : Except E α → FileTree → Prop} (ht : program.Ensures (Performs P) disk.tree Q) :
    Q (program.run (fsHandler oracle) disk).1 (program.run (fsHandler oracle) disk).2.tree := by
  obtain ⟨v', hR, hQ⟩ := Program.Ensures.run (R := fun (d : Disk) t => d.tree = t) ht
    (by rintro op d t rfl; exact ⟨_, fsHandler_performs h op d, rfl⟩) rfl
  rw [hR]
  exact hQ

theorem run_of_stops {E α : Type} {oracle : Nat → Choice} (h : QuietOracle oracle)
    {program : Program fsSignature E α} {disk : Disk} {result : Except E α} {t' : FileTree}
    (ht : program.Stops Quietly disk.tree result t') :
    (program.run (fsHandler oracle) disk).1 = result ∧
      (program.run (fsHandler oracle) disk).2.tree = t' :=
  run_of_ensures h ht

/-- A run goes on from where its first part stops. -/
theorem run_bind_of_stops {E α β : Type} {oracle : Nat → Choice} (h : QuietOracle oracle)
    {program : Program fsSignature E α} {disk : Disk} {value : α} {t' : FileTree}
    (ht : program.Stops Quietly disk.tree (.ok value) t') (f : α → Program fsSignature E β) :
    ∃ disk', disk'.tree = t' ∧
      (program.bind f).run (fsHandler oracle) disk = (f value).run (fsHandler oracle) disk' := by
  obtain ⟨hresult, htree⟩ := run_of_stops h ht
  exact ⟨_, htree, Program.run_bind_ok (Prod.ext hresult rfl)⟩

/-- A program of read-only calls leaves the tree alone, whatever fails. -/
theorem perform_readOnly {op : FsCall} (h : op.ReadOnly) (choice : Choice) (t : FileTree) :
    (op.perform choice t).2 = t := by
  cases op with
  | readDir path => simp only [FsCall.perform]; split <;> rfl
  | createDirAll path | removeDirAll path | create path | createNew path => exact absurd h id
  | writeAll place offset data => exact absurd h id
  | _ => rfl

end IronDrive
