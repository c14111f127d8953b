import IronDrive.KeyWrap
import IronDrive.PathSafety
import IronDrive.StoreCalls

/-! The master key at boot. It is stored once, wrapped under the secret of the environment; a server that finds
none makes one up and offers it, and then takes it only if it is the one stored. However many servers boot at
once, they agree. -/

namespace IronDrive

open Lib PathSafety

namespace CryptoService

def masterKeyDbKey : String := "master_key_encrypted"

/-- What the configuration holds for the master key. -/
def storedMasterKey (db : Db) : Option Bytes := db.findConfig masterKeyDbKey

def loadEncryptedMasterKey : ServiceProgram (Option Bytes) := query storedMasterKey

/-- Uses INSERT OR IGNORE and a look at the result to handle concurrent first boots. -/
def storeEncryptedMasterKey (blob : Bytes) : ServiceProgram Unit := do
  match ← execute (Db.insertConfigOrIgnore ⟨masterKeyDbKey, blob⟩) with
  | .error e => Program.fail (.sqlx e)
  | .ok _ =>
      let stored ← Program.okOr (.internal "Master key row missing after INSERT") (← loadEncryptedMasterKey)
      if stored ≠ blob then
        Program.fail (.internal "Another process stored a different master key — restart to load it")
      else return ()

section

variable (P : Primitives) (decodeBase64 : String → Except String Bytes)

def decodeSecretKey (secretKeyB64 : String) : Except AppError (FixedBytes 32) :=
  match decodeBase64 (String.ofList (trim secretKeyB64.toList)) with
  | .error e => .error (.internal ("IRONDRIVE_SECRET_KEY is not valid base64: " ++ e))
  | .ok bytes =>
      if bytes.length = keyLen then .ok (fixedBytes 32 bytes)
      else .error (.internal ("IRONDRIVE_SECRET_KEY must decode to exactly " ++ toString keyLen ++
        " bytes, got " ++ toString bytes.length))

/-- First boot: store the key that was drawn, wrapped under the secret. Later boots: load what is stored. -/
def bootstrapMasterKey (drawnKey : FixedBytes 32) (nonce : FixedBytes 12) (secretKeyB64 : String) :
    ServiceProgram MasterKey := do
  let wk ← Program.ofExcept (decodeSecretKey decodeBase64 secretKeyB64)
  match ← loadEncryptedMasterKey with
  | some blob =>
      let raw ← Program.ofExcept (aesGcmUnwrap P wk blob)
      return { key := raw }
  | none =>
      let blob ← Program.ofExcept (aesGcmWrap P wk nonce drawnKey)
      storeEncryptedMasterKey blob
      return { key := drawnKey }

end

/-- A call that never replaces a stored master key. -/
def KeepsStored : serviceSignature.Op → Prop
  | .inr (.execute statement) => ∀ db n db' blob, statement db = .ok (n, db') →
      storedMasterKey db = some blob → storedMasterKey db' = some blob
  | _ => True

variable {P : Primitives} {decodeBase64 : String → Except String Bytes} {drawnKey : FixedBytes 32}
  {nonce : FixedBytes 12} {secretKeyB64 : String} {oracle : Nat → Choice} {dbOracle : Nat → Option String}
  {α β ι : Type} {blob : Bytes}

theorem keepsStored_insert : KeepsStored (.inr (.execute (Db.insertConfigOrIgnore ⟨masterKeyDbKey, blob⟩))) := by
  intro db n db' stored h hstored
  unfold Db.insertConfigOrIgnore at h
  split_ifs at h with hkey
  · cases h
    exact hstored
  · -- The row is new, so nothing was stored.
    obtain ⟨row, hrow, -⟩ := Option.map_eq_some_iff.mp hstored
    have hfound : row.key = masterKeyDbKey := by simpa using List.find?_some hrow
    exact absurd (List.mem_map.mpr ⟨row, List.mem_of_find?_eq_some hrow, hfound⟩) hkey

theorem only_query {α : Type} (q : Db → α) : (query q).Only KeepsStored fun _ => True :=
  ⟨trivial, fun _ => Program.only_ofExcept _⟩

theorem only_execute {statement : Db → Db.Outcome} (h : KeepsStored (.inr (.execute statement))) :
    (execute statement).Only KeepsStored fun _ => True :=
  ⟨h, fun _ => trivial⟩

theorem only_storeEncryptedMasterKey : (storeEncryptedMasterKey blob).Only KeepsStored fun _ => True := by
  refine Program.Only.bind (only_execute keepsStored_insert) fun answer _ => ?_
  cases answer with
  | error e => trivial
  | ok count =>
      refine Program.Only.bind (only_query _) fun found _ => ?_
      refine Program.Only.bind (Program.only_okOr _ _) fun stored _ => ?_
      split <;> trivial

theorem only_bootstrapMasterKey :
    (bootstrapMasterKey P decodeBase64 drawnKey nonce secretKeyB64).Only KeepsStored fun _ => True := by
  refine Program.Only.bind (Program.only_ofExcept _) fun wk _ => ?_
  refine Program.Only.bind (only_query _) fun found _ => ?_
  cases found with
  | some blob => exact Program.Only.bind (Program.only_ofExcept _) fun _ _ => trivial
  | none =>
      refine Program.Only.bind (Program.only_ofExcept _) fun blob _ => ?_
      exact Program.Only.bind only_storeEncryptedMasterKey fun _ _ => trivial

/-- Whoever makes it, such a call leaves what is stored. -/
theorem stored_of_keepsStored {op : serviceSignature.Op} (hop : KeepsStored op) (site : Site)
    (h : storedMasterKey site.db = some blob) :
    storedMasterKey (serviceHandler oracle dbOracle op site).2.db = some blob := by
  cases op with
  | inl op => exact h
  | inr op =>
      simp only [serviceHandler, Program.sumHandler, storeHandler, Site.db]
      cases op with
      | select q => exact h
      | keys change => exact h
      | execute statement =>
          cases hfault : dbOracle site.2.tick with
          | some message => exact h
          | none =>
              simp only [StoreCall.perform]
              cases hstatement : statement site.2.records.db with
              | error error => rw [Db.execute_error hstatement]; exact h
              | ok found =>
                  obtain ⟨count, db'⟩ := found
                  rw [Db.execute_ok hstatement]
                  exact hop _ _ _ _ hstatement h

/-- A call of a server that knows what is stored, if anything is; others may store something in between, but
what is known stays. -/
def Learns : (op : serviceSignature.Op) → Option Bytes → serviceSignature.Answer op → Option Bytes → Prop
  | .inl _, known, _, known' => known' = known
  | .inr op, known, answer, known' => ∃ records records' fault,
      (∀ blob, known = some blob → storedMasterKey records.db = some blob) ∧
      op.perform fault records = (answer, records') ∧ known' = storedMasterKey records'.db

variable {known : Option Bytes} {Q : Except AppError β → Option Bytes → Prop}

theorem load_bind {f : Option Bytes → ServiceProgram β} (hf : ∀ stored, (f stored).Ensures Learns stored Q)
    (herror : ∀ error known, Q (.error error) known) :
    (loadEncryptedMasterKey.bind f).Ensures Learns known Q := by
  rintro answer known' ⟨records, records', fault, -, hperform, rfl⟩
  cases fault with
  | none =>
      cases hperform
      exact hf _
  | some message =>
      cases hperform
      exact herror _ _

/-- A server that boots has the key that is stored. -/
def Booted (P : Primitives) (decodeBase64 : String → Except String Bytes) (secretKeyB64 : String)
    (result : Except AppError MasterKey) (known : Option Bytes) : Prop :=
  ∀ masterKey, result = .ok masterKey → ∃ blob wk, known = some blob ∧
    decodeSecretKey decodeBase64 secretKeyB64 = .ok wk ∧ aesGcmUnwrap P wk blob = .ok masterKey.key

theorem booted_error {error : AppError} : Booted P decodeBase64 secretKeyB64 (.error error) known := by
  intro masterKey h
  cases h

theorem bootstrapMasterKey_ensures (hP : P.Lawful) (known : Option Bytes) :
    (bootstrapMasterKey P decodeBase64 drawnKey nonce secretKeyB64).Ensures Learns known
      (Booted P decodeBase64 secretKeyB64) := by
  refine Program.ensures_ofExcept_bind (fun wk hwk => ?_) fun _ _ => booted_error
  refine load_bind (fun stored => ?_) fun _ _ => booted_error
  cases stored with
  | some blob =>
      refine Program.ensures_ofExcept_bind (fun raw hraw => ?_) fun _ _ => booted_error
      intro masterKey hkey
      cases hkey
      exact ⟨blob, wk, rfl, hwk, hraw⟩
  | none =>
      refine Program.ensures_ofExcept_bind (fun blob hblob => ?_) fun _ _ => booted_error
      have hstore : (storeEncryptedMasterKey blob).Ensures Learns none fun result known =>
          result = .ok () → known = some blob := by
        rw [storeEncryptedMasterKey, Program.bind_eq]
        intro answer known' _
        cases answer with
        | error e => exact fun h => by cases h
        | ok count =>
            refine load_bind (fun stored => ?_) fun _ _ h => by cases h
            refine Program.ensures_okOr_bind (fun found hfound => ?_) fun _ h => by cases h
            subst hfound
            split
            · exact fun h => by cases h
            · next hsame => exact fun _ => congrArg some (not_not.mp hsame)
      refine hstore.bind (fun _ known' h => ?_) fun _ _ _ => booted_error
      intro masterKey hkey
      cases hkey
      exact ⟨blob, wk, h rfl, hwk, aesGcmUnwrap_of_wrap hP hblob⟩

/-! ### Any number of servers -/

/-- A server that has got a key has the one that is stored. -/
theorem booted_of_done [DecidableEq ι] (hP : P.Lawful) {drawnKeys : ι → FixedBytes 32} {nonces : ι → FixedBytes 12}
    {schedule : List ι} {site : Site} {i : ι} {masterKey : MasterKey}
    (h : (Pool.run (serviceHandler oracle dbOracle) schedule
      (fun i => bootstrapMasterKey P decodeBase64 (drawnKeys i) (nonces i) secretKeyB64) site).1 i =
        .done masterKey) :
    ∃ blob wk, storedMasterKey (Pool.run (serviceHandler oracle dbOracle) schedule
        (fun i => bootstrapMasterKey P decodeBase64 (drawnKeys i) (nonces i) secretKeyB64) site).2.db = some blob ∧
      decodeSecretKey decodeBase64 secretKeyB64 = .ok wk ∧ aesGcmUnwrap P wk blob = .ok masterKey.key := by
  -- What a server has learned is stored stays so, since nobody replaces it.
  have hensures := Pool.ensures_run (H := Learns) (h := serviceHandler oracle dbOracle) (i := i)
    (R := fun site _ known => ∀ blob, known = some blob → storedMasterKey site.db = some blob)
    (F := fun _ event => KeepsStored event.1) (Q := Booted P decodeBase64 secretKeyB64) ?_ ?_ schedule
    (fun i => bootstrapMasterKey P decodeBase64 (drawnKeys i) (nonces i) secretKeyB64) site [] none
    (Pool.trace_only schedule _ _ fun i => only_bootstrapMasterKey) (bootstrapMasterKey_ensures hP none)
    (by intro blob hblob; cases hblob)
  · obtain ⟨known, hbooted, hknown⟩ := hensures
    rw [h] at hbooted
    obtain ⟨blob, wk, hblob, hwk, hunwrap⟩ := hbooted masterKey rfl
    exact ⟨blob, wk, hknown blob hblob, hwk, hunwrap⟩
  · intro op site past known _ hknown
    cases op with
    | inl op => exact ⟨known, rfl, hknown⟩
    | inr op =>
        refine ⟨_, ⟨site.records, _, dbOracle site.2.tick, hknown, rfl, rfl⟩, ?_⟩
        exact fun blob hblob => hblob
  · intro j op site past known _ hkeeps hknown blob hblob
    exact stored_of_keepsStored hkeeps site (hknown blob hblob)

/-- A server that boots where a key is stored unwraps it. -/
theorem bootstrapMasterKey_stored {wk : FixedBytes 32} {masterKey : MasterKey} {site : Site}
    (hstored : storedMasterKey site.db = some blob) (hwk : decodeSecretKey decodeBase64 secretKeyB64 = .ok wk)
    (hunwrap : aesGcmUnwrap P wk blob = .ok masterKey.key) :
    ((bootstrapMasterKey P decodeBase64 drawnKey nonce secretKeyB64).run
      (serviceHandler oracle fun _ => none) site).1 = .ok masterKey := by
  have hload : (loadEncryptedMasterKey.run (serviceHandler oracle fun _ => none) site) =
      (.ok (some blob), (serviceHandler oracle (fun _ => none) (.inr (.select storedMasterKey)) site).2) := by
    rw [← hstored]
    rfl
  rw [bootstrapMasterKey, hwk, Program.ofExcept_ok, Program.bind_eq, Program.done_bind, Program.bind_eq,
    Program.run_bind_ok hload]
  simp only [hunwrap, Program.ofExcept_ok, Program.bind_eq, Program.done_bind]
  rfl

/-- Whatever the order of their steps and whatever fails, servers that boot with one secret against one database
agree: those that get a master key get the same one, a later boot finds that one, and what is stored never
changes. -/
theorem master_key_agreement [DecidableEq ι] (P : Primitives) (hP : P.Lawful)
    (decodeBase64 : String → Except String Bytes) (secretKeyB64 : String) (drawnKeys : ι → FixedBytes 32)
    (nonces : ι → FixedBytes 12) (oracle : Nat → Choice) (dbOracle : Nat → Option String) (site : Site)
    (schedule later : List ι) :
    let boots := fun i => bootstrapMasterKey P decodeBase64 (drawnKeys i) (nonces i) secretKeyB64
    let after := Pool.run (serviceHandler oracle dbOracle) schedule boots site
    let afterwards := Pool.run (serviceHandler oracle dbOracle) (schedule ++ later) boots site
    (∀ i j key key', after.1 i = .done key → after.1 j = .done key' → key = key') ∧
    (∀ i key, after.1 i = .done key → ∀ drawnKey nonce anyOracle,
      ((bootstrapMasterKey P decodeBase64 drawnKey nonce secretKeyB64).run
        (serviceHandler anyOracle fun _ => none) after.2).1 = .ok key) ∧
    ∀ blob, storedMasterKey after.2.db = some blob → storedMasterKey afterwards.2.db = some blob := by
  intro boots after afterwards
  refine ⟨?_, ?_, ?_⟩
  · intro i j key key' hi hj
    obtain ⟨blob, wk, hstored, hwk, hunwrap⟩ := booted_of_done hP hi
    obtain ⟨blob', wk', hstored', hwk', hunwrap'⟩ := booted_of_done hP hj
    cases hstored.symm.trans hstored'
    cases hwk.symm.trans hwk'
    have hsame : key.key = key'.key := Except.ok.inj (hunwrap.symm.trans hunwrap')
    cases key
    cases key'
    exact congrArg MasterKey.mk hsame
  · intro i key hi drawnKey nonce anyOracle
    obtain ⟨blob, wk, hstored, hwk, hunwrap⟩ := booted_of_done hP hi
    exact bootstrapMasterKey_stored hstored hwk hunwrap
  · intro blob hstored
    have honly := (Pool.invariant (I := fun _ => True) (h := serviceHandler oracle dbOracle)
      (fun _ _ _ _ => trivial) schedule boots site (fun i => only_bootstrapMasterKey) trivial).1
    have hrun : afterwards = Pool.run (serviceHandler oracle dbOracle) later after.1 after.2 :=
      Pool.run_append schedule later boots site
    rw [hrun]
    exact (Pool.invariant (fun op site hop => stored_of_keepsStored hop site) later after.1 after.2 honly hstored).2

/-- The secret of 32 zero bytes. -/
def sampleSecret : String := "AAAAAAAAAAAAAAAAAAAAAAAAAAAAAAAAAAAAAAAAAAA="

def sampleDecode (text : String) : Except String Bytes :=
  if text = sampleSecret then .ok (List.replicate 32 0) else .error "Invalid symbol"

/-- Two servers draw different keys; both find nothing, and then both offer their own. -/
def sampleKeys (first : Bool) : FixedBytes 32 := ⟨List.replicate 32 (if first then 1 else 2), by simp⟩

def sampleNonces (_ : Bool) : FixedBytes 12 := ⟨List.replicate 12 0, twelve_zeros⟩

def sampleTurns : List Bool := [true, false, false, true, true, false]

theorem master_key_agreement_rivals :
    let boots := fun i => bootstrapMasterKey plainPrimitives sampleDecode (sampleKeys i) (sampleNonces i) sampleSecret
    let after := Pool.run (serviceHandler calmOracle fun _ => none) sampleTurns boots emptySite
    let afterwards := Pool.run (serviceHandler calmOracle fun _ => none) (sampleTurns ++ [true]) boots emptySite
    (Pool.succeeded (after.1 false) = true ∧ Pool.succeeded (after.1 true) = false) ∧
    (∀ i j key key', after.1 i = .done key → after.1 j = .done key' → key = key') ∧
    (∀ i key, after.1 i = .done key → ∀ drawnKey nonce anyOracle,
      ((bootstrapMasterKey plainPrimitives sampleDecode drawnKey nonce sampleSecret).run
        (serviceHandler anyOracle fun _ => none) after.2).1 = .ok key) ∧
    ∀ blob, storedMasterKey after.2.db = some blob → storedMasterKey afterwards.2.db = some blob :=
  ⟨by decide +kernel, master_key_agreement plainPrimitives plainPrimitives_lawful sampleDecode sampleSecret
    sampleKeys sampleNonces calmOracle (fun _ => none) emptySite sampleTurns [true]⟩

end CryptoService

end IronDrive
