import IronDrive.WriterRace

/-! Two uploads of one file at the same time. There is no lock and no temporary file: each call truncates
the target and writes at offsets of its own, so every byte of the file is the last one written there. From
the calls made one can tell who that was; an upload whose bytes all stand has stored its whole file. -/

namespace IronDrive

open Lib FileTree PathSafety CryptoService FsService ChunkService

/-- The file a call creates, truncates or writes to. -/
def touched : Event serverSignature → Option Path
  | ⟨.inl (.create _), answer⟩ => Except.toOption (answer : Except IoError Path)
  | ⟨.inl (.createNew _), answer⟩ => Except.toOption (answer : Except IoError Path)
  | ⟨.inl (.writeAll place _ _), _⟩ => some place
  | _ => none

/-- The calls an upload makes; of directories it removes only those in `staged`. -/
def UploadCalls (staged : Path → Prop) : serverSignature.Op → Prop
  | .inl (.removeDirAll path) => staged path
  | .inl (.createNew _) => False
  | .inr (.insert _) | .inr (.setReceived _ _) => False
  | _ => True

/-- A call that an upload of the file `q` may make. -/
def Fine (q : Path) (staged : Path → Prop) (event : Event serverSignature) : Prop :=
  UploadCalls staged event.1 ∧ ∀ p, touched event = some p → p = q

section Steps

variable {q p : Path} {staged : Path → Prop} {reads : Path → Bytes → Prop} {t t' : FileTree}
  {choice : Choice} {content : Bytes}

theorem node_removeChildren {place : Path} (hnot : ¬ place <+: p) (names : List String) : ∀ t : FileTree,
    (names.foldl (fun t name => t.removeAll (place ++ [name])) t).node p = t.node p := by
  induction names with
  | nil => intro t; rfl
  | cons name names ih =>
      intro t
      rw [List.foldl_cons, ih]
      exact node_removeAll_of_not_below fun hbelow => hnot ((List.prefix_append _ _).trans hbelow)

/-- Removing directories, to the end or part of the way, removes only what lies below them. -/
theorem node_removeDirAll {path : Path} {answer : Except IoError Unit}
    (h : FsCall.perform choice (.removeDirAll path) t = (answer, t'))
    (hout : ∀ place, FsCall.removalPlace t path = .ok place → ¬ place <+: p) : t'.node p = t.node p := by
  have htree : (FsCall.perform choice (.removeDirAll path) t).2 = t' := by rw [h]
  rw [← htree]
  simp only [FsCall.perform]
  cases hplace : FsCall.removalPlace t path with
  | error kind => cases choice.fault <;> rfl
  | ok place =>
      cases choice.fault with
      | none => exact node_removeAll_of_not_below (hout place hplace)
      | some message => exact node_removeChildren (hout place hplace) _ t

theorem node_removeAll_cases (t : FileTree) (place p : Path) :
    (t.removeAll place).node p = t.node p ∨ (t.removeAll place).node p = none := by
  by_cases hbelow : place <+: p
  · by_cases hroot : place = []
    · left
      simp [removeAll, hroot]
    · exact Or.inr (node_removeAll_of_below hroot hbelow)
  · exact Or.inl (node_removeAll_of_not_below hbelow)

/-- Removing directories changes no entry that it leaves. -/
theorem node_removeDirAll_cases {path : Path} {answer : Except IoError Unit}
    (h : FsCall.perform choice (.removeDirAll path) t = (answer, t')) (p : Path) :
    t'.node p = t.node p ∨ t'.node p = none := by
  have htree : (FsCall.perform choice (.removeDirAll path) t).2 = t' := by rw [h]
  rw [← htree]
  simp only [FsCall.perform]
  cases FsCall.removalPlace t path with
  | error kind => cases choice.fault <;> exact Or.inl rfl
  | ok place =>
      cases choice.fault with
      | none => exact node_removeAll_cases t place p
      | some message =>
          have hnames : ∀ (names : List String) (t : FileTree),
              (names.foldl (fun t name => t.removeAll (place ++ [name])) t).node p = t.node p ∨
                (names.foldl (fun t name => t.removeAll (place ++ [name])) t).node p = none := by
            intro names
            induction names with
            | nil => intro t; exact Or.inl rfl
            | cons name names ih =>
                intro t
                rcases ih (t.removeAll (place ++ [name])) with hsame | hnone
                · rcases node_removeAll_cases t (place ++ [name]) p with hkept | hgone
                  · exact Or.inl (hsame.trans hkept)
                  · exact Or.inr (hsame.trans hgone)
                · exact Or.inr hnone
          exact hnames _ t

/-- From one tree to the next directories stay, and away from `q` nothing goes and only directories come. -/
def StaysBut (q : Path) (t t' : FileTree) : Prop :=
  ∀ p, (t.node p = some .dir → t'.node p = some .dir) ∧
    (p ≠ q → t'.node p = t.node p ∨ (t.node p = none ∧ t'.node p = some .dir))

theorem staysBut_refl (q : Path) (t : FileTree) : StaysBut q t t := fun _ => ⟨id, fun _ => Or.inl rfl⟩

theorem staysBut_put (q : Path) (t : FileTree) (data : Bytes) : StaysBut q t (t.put q (.file data)) :=
  fun _ => ⟨fun hdir => node_put_of_dir hdir _, fun hne => Or.inl (node_put_of_ne hne _)⟩

theorem staysBut_createDirs (q : Path) {names : List String} {made : FileTree}
    (h : t.createDirs [] names = .ok made) : StaysBut q t made :=
  fun p => ⟨node_of_createDirs names h, fun _ => node_createDirs names h p⟩

/-- Every call but a removal changes the file it touches, and may make directories. -/
theorem staysBut_step {op : FsCall} {answer : op.Answer} (h : op.perform choice t = (answer, t'))
    (htouch : ∀ p, touched ⟨.inl op, answer⟩ = some p → p = q)
    (hremove : ∀ path, op ≠ .removeDirAll path) : StaysBut q t t' := by
  have hanswer : (op.perform choice t).1 = answer := by rw [h]
  have htree : (op.perform choice t).2 = t' := by rw [h]
  by_cases hread : op.ReadOnly
  · rw [← htree, perform_readOnly hread]
    exact staysBut_refl q t
  subst hanswer htree
  cases op with
  | removeDirAll path => exact absurd rfl (hremove path)
  | writeAll place offset data =>
      have hplace := htouch place rfl
      subst hplace
      simp only [FsCall.perform]
      cases t.node place with
      | none => exact staysBut_refl place t
      | some n =>
          cases n with
          | file old => exact staysBut_put place t _
          | dir | symlink => exact staysBut_refl place t
  | createDirAll path =>
      simp only [FsCall.perform]
      cases choice.fault with
      | some message =>
          cases hpartial : t.createDirs [] (path.take choice.amount) with
          | ok made => exact staysBut_createDirs q hpartial
          | error kind => exact staysBut_refl q t
      | none =>
          cases hfull : t.createDirs [] path with
          | ok made => exact staysBut_createDirs q hfull
          | error kind => exact staysBut_refl q t
  | create path =>
      simp only [FsCall.perform] at htouch ⊢
      cases hplace : choice.guard (t.createPlace path) with
      | error e => exact staysBut_refl q t
      | ok place =>
          rw [hplace] at htouch
          have hq := htouch place rfl
          subst hq
          exact staysBut_put place t []
  | createNew path =>
      simp only [FsCall.perform] at htouch ⊢
      cases hplace : choice.guard (t.createNewPlace path) with
      | error e => exact staysBut_refl q t
      | ok place =>
          rw [hplace] at htouch
          have hq := htouch place rfl
          subst hq
          exact staysBut_put place t []
  | _ => exact absurd trivial hread

/-- What the removals among the calls spare. -/
def Clear (q : Path) (t : FileTree) (op : FsCall) : Prop :=
  ∀ path place, op = .removeDirAll path → FsCall.removalPlace t path = .ok place → ¬ place <+: q

/-- A call that does not touch the file leaves it as it is. -/
theorem node_untouched {op : FsCall} {answer : op.Answer} (h : op.perform choice t = (answer, t'))
    (hfine : Fine q staged ⟨.inl op, answer⟩) (hnot : touched ⟨.inl op, answer⟩ ≠ some q)
    (hclear : Clear q t op) (hnode : t.node q = some (.file content)) :
    t'.node q = some (.file content) := by
  have hstays : Spares q op → ¬ CreatesAt q ⟨op, answer⟩ → t'.node q = some (.file content) := by
    intro hspares hcreates
    rcases spares_step hspares h with hcreated | hstays
    · exact absurd hcreated hcreates
    · exact (hstays content hnode).2
  cases op with
  | removeDirAll path =>
      rw [node_removeDirAll h fun place hplace => hclear path place rfl hplace, hnode]
  | createNew path => exact absurd hfine.1 id
  | writeAll place offset data =>
      exact hstays (fun heq => hnot (by rw [heq]; rfl)) (by simp [CreatesAt, created])
  | create path => exact hstays trivial hnot
  | _ => exact hstays trivial (by simp [CreatesAt, created])

/-- The file a call has opened with `File::create` is empty. -/
theorem node_created {path place : Path}
    (h : FsCall.perform choice (.create path) t = ((.ok place : Except IoError Path), t')) :
    t'.node place = some (.file []) ∧ ∀ name ∈ place, Ordinary name := by
  simp only [FsCall.perform] at h
  cases hguard : choice.guard (t.createPlace path) with
  | error e => rw [hguard] at h; cases h
  | ok found =>
      rw [hguard] at h
      cases h
      obtain ⟨hadmits, hresolved⟩ := admits_of_createPlace ((guard_accounted choice _).ok _ hguard)
      exact ⟨node_put_self hadmits _, hresolved.ordinary⟩

/-- A write to the file overwrites it from the offset on, a failing one with a part of the data. -/
theorem node_written {offset : Nat} {data : Bytes} {answer : Except IoError Unit}
    (h : FsCall.perform choice (.writeAll q offset data) t = (answer, t'))
    (hnode : t.node q = some (.file content)) :
    ∃ written, t'.node q = some (.file (writeAt content offset written)) ∧
      written.length ≤ data.length ∧ (answer = .ok () → written = data) := by
  simp only [FsCall.perform, hnode] at h
  cases h
  refine ⟨_, node_put_self (admits_of_file hnode) _, ?_, ?_⟩
  · split
    · exact Nat.le_refl _
    · exact List.length_take_le' _ _
  · intro hok
    cases hfault : choice.fault with
    | none => rw [if_pos rfl]
    | some message => rw [Choice.guard, hfault] at hok; cases hok

/-- A read that answers, answers what the path leads to. -/
theorem reads_of_answer {path : Path} (hreads : ∀ place content, t.fileAt path = .ok (place, content) →
    reads path content) {found : Bytes}
    (h : choice.guard ((t.fileAt path).map Prod.snd) = .ok found) : reads path found := by
  have hfile := (guard_accounted choice _).ok found h
  cases hat : t.fileAt path with
  | error kind => rw [hat] at hfile; cases hfile
  | ok entry =>
      rw [hat] at hfile
      cases hfile
      exact hreads entry.1 entry.2 hat

end Steps

/-- What one call does to the authors of the bytes of the file `q`: opening it empties the file, and what
is written is the caller's, or nobody's where a gap is filled or the write fails on the way. -/
def authorStep (q : Path) (marks : List (Option Bool)) : Bool × Event serverSignature → List (Option Bool)
  | (i, ⟨.inl (.writeAll place offset data), answer⟩) =>
      if place = q then
        match (answer : Except IoError Unit) with
        | .ok () => overwrite none marks offset (List.replicate data.length (some i))
        | .error _ => overwrite none marks offset (List.replicate data.length none)
      else marks
  | (_, event) => if touched event = some q then [] else marks

/-- The author of each byte of the file `q` after the calls of two uploads, as far as they opened it. -/
def authors (q : Path) (past : List (Bool × Event serverSignature)) : List (Option Bool) :=
  past.foldl (authorStep q) []

/-- The calls of one of the two. -/
def callsOf (b : Bool) (past : List (Bool × Event serverSignature)) : List (Bool × Event serverSignature) :=
  past.filter fun event => event.1 = b

/-- The upload `b` is the author of every byte of the file, and none of what it wrote is cut off. -/
def SoleAuthor (q : Path) (b : Bool) (past : List (Bool × Event serverSignature)) : Prop :=
  authors q past = List.replicate (authors q (callsOf b past)).length (some b)

/-- How the file `q` and its authors relate to the `content` that `b` has written to it: the bytes `b`
is the author of are there. -/
structure Authored (q : Path) (b : Bool) (t : FileTree) (past : List (Bool × Event serverSignature))
    (content : Bytes) : Prop where
  length : content.length = (authors q (callsOf b past)).length
  bytes : ∃ found, t.node q = some (.file found) ∧ found.length ≤ (authors q past).length ∧
    ∀ o : Nat, (authors q past)[o]? = some (some b) → ∃ byte, found[o]? = some byte ∧ content[o]? = some byte

section Authors

variable {q : Path} {b i : Bool} {t t' : FileTree} {past : List (Bool × Event serverSignature)}
  {content : Bytes} {event : Event serverSignature}

theorem authors_snoc (past : List (Bool × Event serverSignature)) (event : Bool × Event serverSignature) :
    authors q (past ++ [event]) = authorStep q (authors q past) event := by
  rw [authors, List.foldl_append]
  rfl

theorem callsOf_snoc_self : callsOf b (past ++ [(b, event)]) = callsOf b past ++ [(b, event)] := by
  simp [callsOf]

theorem callsOf_snoc_other (hi : i ≠ b) : callsOf b (past ++ [(i, event)]) = callsOf b past := by
  simp [callsOf, hi]

theorem authorStep_untouched (h : touched event ≠ some q) (marks : List (Option Bool)) :
    authorStep q marks (i, event) = marks := by
  unfold authorStep
  split
  · next place offset data answer heq =>
      cases heq
      rw [if_neg fun hplace => h (by rw [hplace]; rfl)]
  · next heq =>
      cases heq
      rw [if_neg h]

/-- A sole author has stored what it has written. -/
theorem Authored.node_eq (h : Authored q b t past content) (hsole : SoleAuthor q b past) :
    t.node q = some (.file content) := by
  obtain ⟨found, hnode, hle, hbytes⟩ := h.bytes
  have hlength : (authors q past).length = content.length := by
    rw [hsole, List.length_replicate, h.length]
  have hbyte : ∀ o, o < content.length → ∃ byte, found[o]? = some byte ∧ content[o]? = some byte := by
    intro o ho
    apply hbytes
    rw [hsole, List.getElem?_replicate_of_lt (by rw [← h.length]; exact ho)]
  have hfound : found = content := by
    apply List.ext_getElem?
    intro o
    by_cases ho : o < content.length
    · obtain ⟨byte, hfound, hcontent⟩ := hbyte o ho
      rw [hfound, hcontent]
    · rw [List.getElem?_eq_none (by omega), List.getElem?_eq_none (by omega)]
  rw [hnode, hfound]

theorem Authored.untouched (h : Authored q b t past content) (hnot : touched event ≠ some q)
    (hnode : ∀ found, t.node q = some (.file found) → t'.node q = some (.file found)) :
    Authored q b t' (past ++ [(i, event)]) content := by
  have hpast : authors q (past ++ [(i, event)]) = authors q past := by
    rw [authors_snoc, authorStep_untouched hnot]
  have hcalls : authors q (callsOf b (past ++ [(i, event)])) = authors q (callsOf b past) := by
    by_cases hi : i = b
    · rw [hi, callsOf_snoc_self, authors_snoc, authorStep_untouched hnot]
    · rw [callsOf_snoc_other hi]
  obtain ⟨found, hfound, hle, hbytes⟩ := h.bytes
  exact ⟨by rw [hcalls]; exact h.length, found, hnode found hfound, by rw [hpast]; exact hle,
    by rw [hpast]; exact hbytes⟩

/-- Opening the file starts the upload's content afresh. -/
theorem authored_created {path : Path} (hnode : t'.node q = some (.file [])) :
    Authored q b t' (past ++ [(b, ⟨.inl (.create path), (.ok q : Except IoError Path)⟩)]) [] := by
  have hreset : ∀ marks i, authorStep q marks
      (i, ⟨.inl (.create path), (.ok q : Except IoError Path)⟩) = [] := fun marks i => if_pos rfl
  refine ⟨?_, [], hnode, Nat.zero_le _, ?_⟩
  · rw [callsOf_snoc_self, authors_snoc, hreset]
    rfl
  · intro o ho
    rw [authors_snoc, hreset] at ho
    cases ho

/-- When the other opens the file, nothing of it is the upload's any more. -/
theorem Authored.truncated {path : Path} (h : Authored q b t past content) (hi : i ≠ b)
    (hnode : t'.node q = some (.file [])) :
    Authored q b t' (past ++ [(i, ⟨.inl (.create path), (.ok q : Except IoError Path)⟩)]) content := by
  refine ⟨by rw [callsOf_snoc_other hi]; exact h.length, [], hnode, Nat.zero_le _, ?_⟩
  intro o ho
  have hreset : authorStep q (authors q past)
      (i, ⟨.inl (.create path), (.ok q : Except IoError Path)⟩) = [] := if_pos rfl
  rw [authors_snoc, hreset] at ho
  cases ho

/-- Whose the bytes of a write are. -/
def writer (i : Bool) : Except IoError Unit → Option Bool
  | .ok () => some i
  | .error _ => none

theorem authorStep_write (marks : List (Option Bool)) (offset : Nat) (data : Bytes)
    (answer : Except IoError Unit) :
    authorStep q marks (i, ⟨.inl (.writeAll q offset data), answer⟩) =
      overwrite none marks offset (List.replicate data.length (writer i answer)) := by
  simp only [authorStep, if_true]
  cases answer <;> rfl

/-- A byte is `b`'s after a write if the write was `b`'s, or if the byte is outside of it. -/
theorem marked_cases {marks : List (Option Bool)} {offset n o : Nat} {author : Option Bool}
    (h : (overwrite none marks offset (List.replicate n author))[o]? = some (some b)) :
    (offset ≤ o ∧ o < offset + n ∧ author = some b) ∨
      ((o < offset ∨ offset + n ≤ o) ∧ marks[o]? = some (some b)) := by
  by_cases hbefore : o < offset
  · by_cases hold : o < marks.length
    · rw [overwrite_before hbefore hold] at h
      exact Or.inr ⟨Or.inl hbefore, h⟩
    · rw [overwrite_gap hbefore (by omega)] at h
      cases h
  · by_cases hafter : offset + n ≤ o
    · rw [overwrite_after (by simpa using hafter)] at h
      exact Or.inr ⟨Or.inr hafter, h⟩
    · rw [overwrite_written (by omega) (by simpa using hafter),
        List.getElem?_replicate_of_lt (by omega)] at h
      exact Or.inl ⟨by omega, by omega, Option.some.inj h⟩

/-- A write leaves the bytes outside of it. -/
theorem writeAt_outside {found written : Bytes} {offset n o : Nat} {byte : UInt8}
    (hlen : written.length ≤ n) (ho : o < offset ∨ offset + n ≤ o) (h : found[o]? = some byte) :
    (writeAt found offset written)[o]? = some byte := by
  have hold : o < found.length := (List.getElem?_eq_some_iff.mp h).1
  rcases ho with hbefore | hafter
  · rw [writeAt, overwrite_before hbefore hold, h]
  · rw [writeAt, overwrite_after (by omega), h]

theorem authors_write_length {marks : List (Option Bool)} {found written data : Bytes} {offset : Nat}
    {author : Option Bool} (hle : found.length ≤ marks.length) (hlen : written.length ≤ data.length) :
    (writeAt found offset written).length ≤
      (overwrite none marks offset (List.replicate data.length author)).length := by
  rw [writeAt, overwrite_length, overwrite_length, List.length_replicate]
  omega

/-- A write of the upload goes to its content and to the file alike. -/
theorem Authored.wrote {found written data : Bytes} {offset : Nat} {answer : Except IoError Unit}
    (h : Authored q b t past content) (hfound : t.node q = some (.file found))
    (hnode : t'.node q = some (.file (writeAt found offset written)))
    (hlen : written.length ≤ data.length) (hok : answer = .ok () → written = data) :
    Authored q b t' (past ++ [(b, ⟨.inl (.writeAll q offset data), answer⟩)])
      (writeAt content offset data) := by
  obtain ⟨old, hold, hle, hbytes⟩ := h.bytes
  rw [hfound] at hold
  cases hold
  refine ⟨?_, _, hnode, ?_, ?_⟩
  · rw [callsOf_snoc_self, authors_snoc, authorStep_write, writeAt, overwrite_length, overwrite_length,
      List.length_replicate, h.length]
  · rw [authors_snoc, authorStep_write]
    exact authors_write_length hle hlen
  · intro o ho
    rw [authors_snoc, authorStep_write] at ho
    rcases marked_cases ho with ⟨hlow, hhigh, hwriter⟩ | ⟨hout, hmark⟩
    · cases answer with
      | error e => cases hwriter
      | ok u =>
          rw [hok rfl]
          have hdata : o - offset < data.length := by omega
          refine ⟨data[o - offset], ?_, ?_⟩
          · rw [writeAt, overwrite_written hlow hhigh, List.getElem?_eq_getElem hdata]
          · rw [writeAt, overwrite_written hlow hhigh, List.getElem?_eq_getElem hdata]
    · obtain ⟨byte, hbyte, hcontent⟩ := hbytes o hmark
      exact ⟨byte, writeAt_outside hlen hout hbyte, writeAt_outside (Nat.le_refl _) hout hcontent⟩

/-- A write of the other takes bytes over. -/
theorem Authored.overwritten {found written data : Bytes} {offset : Nat} {answer : Except IoError Unit}
    (h : Authored q b t past content) (hi : i ≠ b) (hfound : t.node q = some (.file found))
    (hnode : t'.node q = some (.file (writeAt found offset written)))
    (hlen : written.length ≤ data.length) :
    Authored q b t' (past ++ [(i, ⟨.inl (.writeAll q offset data), answer⟩)]) content := by
  obtain ⟨old, hold, hle, hbytes⟩ := h.bytes
  rw [hfound] at hold
  cases hold
  refine ⟨by rw [callsOf_snoc_other hi]; exact h.length, _, hnode, ?_, ?_⟩
  · rw [authors_snoc, authorStep_write]
    exact authors_write_length hle hlen
  · intro o ho
    rw [authors_snoc, authorStep_write] at ho
    rcases marked_cases ho with ⟨-, -, hwriter⟩ | ⟨hout, hmark⟩
    · cases answer with
      | error e => cases hwriter
      | ok u => exact absurd (Option.some.inj hwriter) hi
    · obtain ⟨byte, hbyte, hcontent⟩ := hbytes o hmark
      exact ⟨byte, writeAt_outside hlen hout hbyte, hcontent⟩

end Authors

/-! ### The server under two uploads -/

/-- How a call may change what the services see of the server, whatever fails. -/
abbrev ServerSteps : (op : serverSignature.Op) → FileTree × List ChunkedUpload →
    serverSignature.Answer op → FileTree × List ChunkedUpload → Prop :=
  Program.sumAccount Anyhow fun op rows answer rows' =>
    ∃ fault : Option String, op.perform fault rows = (answer, rows')

theorem serverHandler_steps (oracle : Nat → Choice) (dbOracle : Nat → Option String)
    (op : serverSignature.Op) (server : Server) :
    ServerSteps op server.view (serverHandler oracle dbOracle op server).1
      (serverHandler oracle dbOracle op server).2.view := by
  cases op with
  | inl op => exact ⟨fsHandler_performs (fun _ => trivial) op server.1, rfl⟩
  | inr op => exact ⟨⟨dbOracle server.2.tick, rfl⟩, rfl⟩

/-- An invariant `K` of the server under fine calls: while it holds, reads and rows are as accounted for,
and removals stay clear of the file `q`. -/
structure Scene (q : Path) (staged : Path → Prop) (reads : Path → Bytes → Prop)
    (stored : String → ChunkedUpload → Prop) (K : FileTree × List ChunkedUpload → Prop) : Prop where
  reads_of : ∀ v path place content, K v → v.1.fileAt path = .ok (place, content) → reads path content
  stored_of : ∀ v id targetType row, K v →
    v.2.find? (fun r => r.id = id && r.targetType = targetType) = some row → stored id row
  clear : ∀ v path place, K v → staged path → FsCall.removalPlace v.1 path = .ok place → ¬ place <+: q
  step : ∀ op v answer v', K v → Fine q staged ⟨op, answer⟩ → ServerSteps op v answer v' → K v'

/-- While the server is in the scene, the file is what the upload `b` has written, as far as its author. -/
def Tracks (q : Path) (K : FileTree × List ChunkedUpload → Prop) (b : Bool) (server : Server)
    (past : List (Bool × Event serverSignature)) (w : Written) : Prop :=
  K server.view ∧ ∀ p content, w = some (p, content) →
    p = q ∧ (∀ name ∈ q, Ordinary name) ∧ Authored q b server.1.tree past content

section Race

variable {q : Path} {staged : Path → Prop} {reads : Path → Bytes → Prop}
  {stored : String → ChunkedUpload → Prop} {K : FileTree × List ChunkedUpload → Prop}
  {oracle : Nat → Choice} {dbOracle : Nat → Option String} {b i : Bool} {server : Server}
  {past : List (Bool × Event serverSignature)} {w : Written}

/-- A fine call that does not touch the file. -/
theorem Tracks.untouched (h : Tracks q K b server past w) (scene : Scene q staged reads stored K)
    {op : serverSignature.Op} (hfine : Fine q staged ⟨op, (serverHandler oracle dbOracle op server).1⟩)
    (hnot : touched ⟨op, (serverHandler oracle dbOracle op server).1⟩ ≠ some q) :
    Tracks q K b (serverHandler oracle dbOracle op server).2
      (past ++ [(i, ⟨op, (serverHandler oracle dbOracle op server).1⟩)]) w := by
  have hstep := serverHandler_steps oracle dbOracle op server
  refine ⟨scene.step _ _ _ _ h.1 hfine hstep, fun p content hw => ?_⟩
  obtain ⟨hp, hordinary, hauthored⟩ := h.2 p content hw
  refine ⟨hp, hordinary, hauthored.untouched hnot fun found hnode => ?_⟩
  cases op with
  | inr op => exact hnode
  | inl op =>
      obtain ⟨⟨choice, -, hperform⟩, -⟩ := hstep
      refine node_untouched hperform hfine hnot ?_ hnode
      intro path place hremove hplace
      subst hremove
      exact scene.clear _ path place h.1 hfine.1 hplace

/-- Every fine call of the upload moves what it has written, and the file with it. -/
theorem Tracks.own (h : Tracks q K b server past w) (scene : Scene q staged reads stored K)
    {op : serverSignature.Op} (hfine : Fine q staged ⟨op, (serverHandler oracle dbOracle op server).1⟩) :
    ∃ w', Races reads stored op w (serverHandler oracle dbOracle op server).1 w' ∧
      Tracks q K b (serverHandler oracle dbOracle op server).2
        (past ++ [(b, ⟨op, (serverHandler oracle dbOracle op server).1⟩)]) w' := by
  have hstep := serverHandler_steps oracle dbOracle op server
  have hK := scene.step _ _ _ _ h.1 hfine hstep
  have huntouched := h.untouched (i := b) scene hfine
  revert hK huntouched hfine hstep
  generalize serverHandler oracle dbOracle op server = outcome
  obtain ⟨answer, after⟩ := outcome
  intro hfine hstep hK huntouched
  cases op with
  | inr op =>
      refine ⟨w, ?_, huntouched (by simp [touched])⟩
      cases op with
      | load id targetType =>
          refine ⟨fun row hrow => ?_, rfl⟩
          obtain ⟨⟨fault, hperform⟩, -⟩ := hstep
          have hanswer := congrArg Prod.fst hperform
          cases fault with
          | none => exact scene.stored_of _ id targetType row h.1 (Except.ok.inj (hanswer.trans hrow))
          | some message => cases hanswer.trans hrow
      | insert row | setReceived id n | delete id => rfl
  | inl op =>
      obtain ⟨⟨choice, -, hperform⟩, -⟩ := hstep
      cases op with
      | create path =>
          cases answer with
          | error e =>
              refine ⟨w, ?_, huntouched (by simp [touched, Except.toOption])⟩
              cases w with
              | none => rfl
              | some file => exact ⟨file.2, rfl⟩
          | ok place =>
              have hplace := hfine.2 place rfl
              subst hplace
              obtain ⟨hnode, hordinary⟩ := node_created hperform
              refine ⟨some (place, []), ?_, hK, fun p content hw => ?_⟩
              · cases w with
                | none => rfl
                | some file =>
                    obtain ⟨p, content⟩ := file
                    exact ⟨[], by rw [(h.2 p content rfl).1]⟩
              · cases hw
                exact ⟨rfl, hordinary, authored_created hnode⟩
      | writeAll place offset data =>
          have hplace := hfine.2 place rfl
          subst hplace
          cases w with
          | none => exact ⟨none, rfl, hK, fun p content hw => by cases hw⟩
          | some file =>
              obtain ⟨p, content⟩ := file
              obtain ⟨rfl, hordinary, hauthored⟩ := h.2 p content rfl
              obtain ⟨found, hfound, -⟩ := hauthored.bytes
              obtain ⟨written, hnode, hlen, hok⟩ := node_written hperform hfound
              refine ⟨some (p, writeAt content offset data), ?_, hK, fun p' content' hw => ?_⟩
              · simp only [Races, Writes, if_true]
                cases answer with
                | ok u => exact trivial
                | error e => exact ⟨_, rfl⟩
              · cases hw
                exact ⟨rfl, hordinary, hauthored.wrote hfound hnode hlen hok⟩
      | readFile path =>
          refine ⟨w, ⟨fun content hcontent => ?_, rfl⟩, huntouched (by simp [touched])⟩
          have hanswer := congrArg Prod.fst hperform
          exact reads_of_answer (scene.reads_of _ path · · h.1) (hanswer.trans hcontent)
      | createNew path => exact absurd hfine.1 id
      | _ => exact ⟨w, rfl, huntouched (by simp [touched])⟩

/-- A fine call of the other may take bytes of the file over. -/
theorem Tracks.other (h : Tracks q K b server past w) (scene : Scene q staged reads stored K) (hi : i ≠ b)
    {op : serverSignature.Op} (hfine : Fine q staged ⟨op, (serverHandler oracle dbOracle op server).1⟩) :
    Tracks q K b (serverHandler oracle dbOracle op server).2
      (past ++ [(i, ⟨op, (serverHandler oracle dbOracle op server).1⟩)]) w := by
  have hstep := serverHandler_steps oracle dbOracle op server
  have hK := scene.step _ _ _ _ h.1 hfine hstep
  have huntouched := h.untouched (i := i) scene hfine
  revert hK huntouched hfine hstep
  generalize serverHandler oracle dbOracle op server = outcome
  obtain ⟨answer, after⟩ := outcome
  intro hfine hstep hK huntouched
  cases op with
  | inr op => exact huntouched (by simp [touched])
  | inl op =>
      obtain ⟨⟨choice, -, hperform⟩, -⟩ := hstep
      cases op with
      | create path =>
          cases answer with
          | error e => exact huntouched (by simp [touched, Except.toOption])
          | ok place =>
              have hplace := hfine.2 place rfl
              subst hplace
              refine ⟨hK, fun p content hw => ?_⟩
              obtain ⟨hp, hordinary, hauthored⟩ := h.2 p content hw
              exact ⟨hp, hordinary, hauthored.truncated hi (node_created hperform).1⟩
      | writeAll place offset data =>
          have hplace := hfine.2 place rfl
          subst hplace
          refine ⟨hK, fun p content hw => ?_⟩
          obtain ⟨hp, hordinary, hauthored⟩ := h.2 p content hw
          obtain ⟨found, hfound, -⟩ := hauthored.bytes
          obtain ⟨written, hnode, hlen, -⟩ := node_written hperform hfound
          exact ⟨hp, hordinary, hauthored.overwritten hi hfound hnode hlen⟩
      | createNew path => exact absurd hfine.1 id
      | _ => exact huntouched (by simp [touched])

/-- An upload that succeeds and is the sole author of the file in the end leaves in it what it has
written. -/
theorem sole_author_stores (scene : Scene q staged reads stored K)
    {programs : Bool → ServerProgram UploadResult} {schedule : List Bool}
    {Q : UploadResult → Written → Prop}
    (honly : ∀ i, (programs i).Only (UploadCalls staged) fun _ => True)
    (hb : (programs b).Ensures (Races reads stored) none (OnOk Q)) (hK : K server.view)
    (hsame : ∀ event ∈ Pool.trace (serverHandler oracle dbOracle) schedule programs server,
      ∀ p, touched event.2 = some p → p = q)
    {upload : UploadResult}
    (hdone : (Pool.run (serverHandler oracle dbOracle) schedule programs server).1 b = .done upload)
    (hsole : SoleAuthor q b (Pool.trace (serverHandler oracle dbOracle) schedule programs server)) :
    ∃ w, Q upload w ∧ ∀ p content, w = some (p, content) →
      (Pool.run (serverHandler oracle dbOracle) schedule programs server).2.1.tree.fileAt q =
        .ok (q, content) := by
  obtain ⟨w, hensures, -, htracks⟩ := Pool.ensures_run (F := fun _ event => Fine q staged event)
    (R := Tracks q K b) (fun op s past v hfine hs => hs.own scene hfine)
    (fun j op s past v hj hfine hs => hs.other scene hj hfine) schedule programs server [] none
    (fun event hmem => ⟨Pool.trace_only _ _ _ honly event hmem, hsame event hmem⟩) hb
    ⟨hK, fun p content hw => by cases hw⟩
  rw [hdone] at hensures
  refine ⟨w, hensures upload rfl, fun p content hw => ?_⟩
  obtain ⟨-, hordinary, hauthored⟩ := htracks p content hw
  have hnode := hauthored.node_eq hsole
  exact fileAt_of_resolved (resolved_of_node hordinary hnode (by simp)) hnode

end Race

end IronDrive
