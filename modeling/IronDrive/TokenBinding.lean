import Mathlib.Tactic.IntervalCases
import IronDrive.DownloadTokens

/-! What a download token binds. A token that was built is accepted until it expires, with the claims it was built
from; and as long as nobody forges the code of a message that was not signed, only such tokens are accepted. -/

namespace IronDrive

open Lib PathSafety FsService

theorem hexValue_hexDigit {n : Nat} (h : n < 16) : hexValue (hexDigit n) = some n := by
  interval_cases n <;> rfl

theorem hexDigit_plain {n : Nat} (h : n < 16) :
    isWhitespace (hexDigit n) = false ∧ (hexDigit n).toLower = hexDigit n ∧ hexDigit n ≠ '.' := by
  interval_cases n <;> decide

theorem hexDecode_hexEncode (bytes : Bytes) : hexDecode (hexEncode bytes).toList = some bytes := by
  rw [hexEncode, String.toList_ofList]
  induction bytes with
  | nil => rfl
  | cons b bytes ih =>
      have hb := b.toNat_lt
      have hvalue : 16 * (b.toNat / 16) + b.toNat % 16 = b.toNat := Nat.div_add_mod _ _
      rw [List.flatMap_cons, List.cons_append, List.cons_append, List.nil_append, hexDecode,
        hexValue_hexDigit (by omega), hexValue_hexDigit (by omega), ih, Option.bind_some, Option.bind_some,
        Option.map_some, hvalue, UInt8.ofNat_toNat]

theorem hexEncode_injective : Function.Injective hexEncode := by
  intro left right h
  have hsame := hexDecode_hexEncode left
  rw [h, hexDecode_hexEncode] at hsame
  exact (Option.some.inj hsame).symm

theorem hexEncode_digits {bytes : Bytes} {c : Char} (h : c ∈ (hexEncode bytes).toList) :
    ∃ n < 16, c = hexDigit n := by
  rw [hexEncode, String.toList_ofList, List.mem_flatMap] at h
  obtain ⟨b, -, hc⟩ := h
  have hb := b.toNat_lt
  rcases List.mem_pair.mp hc with rfl | rfl
  · exact ⟨b.toNat / 16, by omega, rfl⟩
  · exact ⟨b.toNat % 16, by omega, rfl⟩

namespace ChunkService

theorem trim_eq_self {chars : List Char} (h : ∀ c ∈ chars, isWhitespace c = false) : trim chars = chars := by
  have hkept : ∀ {chars : List Char}, (∀ c ∈ chars, isWhitespace c = false) →
      chars.dropWhile isWhitespace = chars := by
    intro chars h
    cases chars with
    | nil => rfl
    | cons c rest => rw [List.dropWhile_cons_of_neg (by simp [h c])]
  rw [trim, hkept h, hkept (fun c hc => h c (List.mem_reverse.mp hc)), List.reverse_reverse]

/-- A signature as it is written is in its normal form. -/
theorem normalizeHex_hexEncode (bytes : Bytes) : normalizeHex (hexEncode bytes) = (hexEncode bytes).toList := by
  rw [normalizeHex, trim_eq_self]
  · refine (List.map_congr_left fun c hc => ?_).trans (List.map_id _)
    obtain ⟨n, hn, rfl⟩ := hexEncode_digits hc
    exact (hexDigit_plain hn).2.1
  · intro c hc
    obtain ⟨n, hn, rfl⟩ := hexEncode_digits hc
    exact (hexDigit_plain hn).1

theorem splitToken_join {payloadB64 sig : String} (h : '.' ∉ payloadB64.toList) :
    splitToken (payloadB64 ++ "." ++ sig) = some (payloadB64, sig) := by
  have hbefore : ∀ c ∈ payloadB64.toList, decide (c ≠ '.') = true := by
    intro c hc
    simpa using fun heq : c = '.' => h (heq ▸ hc)
  have hchars : (payloadB64 ++ "." ++ sig).toList = payloadB64.toList ++ '.' :: sig.toList := by simp
  rw [splitToken, hchars, List.dropWhile_append_of_pos hbefore, List.takeWhile_append_of_pos hbefore]
  simp

/-- What the encodings and the code promise: any key will do, and what was written is read back. -/
structure TokenCrates.Lawful (tokens : TokenCrates) : Prop where
  hmac : ∀ key, ∃ mac, tokens.hmac key = .ok mac
  json : ∀ payload, ∃ bytes, tokens.toJson payload = .ok bytes ∧ tokens.fromJson bytes = some payload.fields
  base64 : ∀ bytes, tokens.base64Decode (tokens.base64Encode bytes) = some bytes
  base64_dotless : ∀ bytes, '.' ∉ (tokens.base64Encode bytes).toList

/-- A call of `buildDownloadToken`. -/
structure BuildCall where
  secret : String
  now : Int
  nonce : String
  userId : String
  targetId : String
  targetType : String
  path : String

def BuildCall.payload (call : BuildCall) : DownloadTokenPayload :=
  newPayload call.now call.nonce call.userId call.targetId call.targetType call.path

def BuildCall.build (crates : Crates) (tokens : TokenCrates) (call : BuildCall) : Except AppError (String × String) :=
  buildDownloadToken crates tokens call.secret call.now call.nonce call.userId call.targetId call.targetType call.path

/-- The message that the call signs. -/
def BuildCall.Signs (tokens : TokenCrates) (call : BuildCall) (payloadB64 : String) : Prop :=
  ∃ bytes, tokens.toJson call.payload = .ok bytes ∧ tokens.base64Encode bytes = payloadB64

/-- The payload claims what the call was made with. -/
def BuildCall.Claims (call : BuildCall) (payload : DownloadTokenPayload) : Prop :=
  payload.uid = call.userId ∧ payload.lib = call.targetId ∧ payload.typ = call.targetType ∧ payload.path = call.path

/-- A token is built, or a string is presented as one, under the secret of the server at that time. -/
inductive TokenEvent
  | built (call : BuildCall)
  | presented (secret : String) (now : Int) (token : String)

/-- The message and the code of it that are checked when a string is presented. -/
def macQuery (token : String) : Option (String × Bytes) :=
  (splitToken token).bind fun parts => (hexDecode (normalizeHex parts.2)).map fun tag => (parts.1, tag)

/-- The idealised code: whenever a code is found right, its message has been signed before under that secret. -/
def Unforged (tokens : TokenCrates) (events : List TokenEvent) : Prop :=
  ∀ before secret now token after, events = before ++ .presented secret now token :: after →
    ∀ payloadB64 tag mac, macQuery token = some (payloadB64, tag) → tokens.hmac (utf8 secret) = .ok mac →
      mac (utf8 payloadB64) = tag →
        ∃ call, .built call ∈ before ∧ call.secret = secret ∧ call.Signs tokens payloadB64

variable {crates : Crates} {tokens : TokenCrates} {secret token : String} {now : Int}
  {payload : DownloadTokenPayload} {call : BuildCall}

theorem bind_eq_ok {α β : Type} {result : Except AppError α} {f : α → Except AppError β} {b : β} :
    (result >>= f) = .ok b ↔ ∃ a, result = .ok a ∧ f a = .ok b := by
  cases result with
  | error e => simp [bind, Except.bind]
  | ok a => simp [bind, Except.bind]

theorem validated_eq_ok {α : Type} {message : String} {value : Option α} {a : α} :
    validated message value = .ok a ↔ value = some a := by
  cases value <;> simp [validated]

theorem mapError_eq_ok {α ε : Type} {result : Except ε α} {f : ε → AppError} {a : α} :
    result.mapError f = .ok a ↔ result = .ok a := by
  cases result <;> simp [Except.mapError]

theorem refused_eq_ok {α : Type} {c : Prop} [Decidable c] {error : AppError} {result : Except AppError α} {a : α} :
    (if c then .error error else result) = .ok a ↔ ¬ c ∧ result = .ok a := by
  by_cases h : c <;> simp [h]

/-- The tokens that are accepted, and what they claim. -/
theorem verifyDownloadToken_eq_ok :
    verifyDownloadToken tokens secret now token = .ok payload ↔
      ∃ payloadB64 tag mac bytes fields, macQuery token = some (payloadB64, tag) ∧
        tokens.hmac (utf8 secret) = .ok mac ∧ mac (utf8 payloadB64) = tag ∧
        tokens.base64Decode payloadB64 = some bytes ∧ tokens.fromJson bytes = some fields ∧
        fields.payload = payload ∧ payload.v = downloadTokenVersion ∧ timestamp now < payload.exp := by
  simp only [verifyDownloadToken, bind_eq_ok, validated_eq_ok, mapError_eq_ok, refused_eq_ok, ne_eq, not_not,
    not_le, macQuery, Option.bind_eq_some_iff, Option.map_eq_some_iff, pure, Except.pure, Except.ok.injEq]
  constructor
  · intro h
    obtain ⟨parts, hsplit, tag, hsig, mac, hmac, htag, bytes, hbase, fields, hjson, hversion, hlive, hpayload⟩ := h
    subst hpayload
    exact ⟨parts.1, tag, mac, bytes, fields, ⟨parts, hsplit, tag, hsig, rfl⟩, hmac, htag, hbase, hjson, rfl,
      hversion, hlive⟩
  · intro h
    obtain ⟨payloadB64, tag, mac, bytes, fields, ⟨parts, hsplit, found, hsig, heq⟩, hmac, htag, hbase, hjson, hpayload,
      hversion, hlive⟩ := h
    cases heq
    subst hpayload
    exact ⟨parts, hsplit, tag, hsig, mac, hmac, htag, bytes, hbase, fields, hjson, hversion, hlive, rfl⟩

/-- A token that was built consists of its message and the code of it. -/
theorem build_spec (crates : Crates) (hlawful : tokens.Lawful) (call : BuildCall) :
    ∃ bytes mac, tokens.toJson call.payload = .ok bytes ∧ tokens.fromJson bytes = some call.payload.fields ∧
      tokens.hmac (utf8 call.secret) = .ok mac ∧
      call.build crates tokens = .ok (tokens.base64Encode bytes ++ "." ++
        hexEncode (mac (utf8 (tokens.base64Encode bytes))), crates.formatTimestamp call.payload.exp) := by
  obtain ⟨bytes, hjson, hback⟩ := hlawful.json call.payload
  obtain ⟨mac, hmac⟩ := hlawful.hmac (utf8 call.secret)
  refine ⟨bytes, mac, hjson, hback, hmac, ?_⟩
  rw [BuildCall.payload] at hjson
  simp only [BuildCall.build, buildDownloadToken, signPayload, hjson, hmac, BuildCall.payload, bind, Except.bind,
    Except.mapError, pure, Except.pure]

/-- It is asked about under that message. -/
theorem macQuery_join (hlawful : tokens.Lawful) (bytes tag : Bytes) :
    macQuery (tokens.base64Encode bytes ++ "." ++ hexEncode tag) = some (tokens.base64Encode bytes, tag) := by
  rw [macQuery, splitToken_join (hlawful.base64_dotless bytes), Option.bind_some, normalizeHex_hexEncode,
    hexDecode_hexEncode, Option.map_some]

theorem claims_payload (call : BuildCall) : call.Claims call.payload := ⟨rfl, rfl, rfl, rfl⟩

/-- A token that was built is accepted before it expires. -/
theorem build_verifies (crates : Crates) (hlawful : tokens.Lawful) (call : BuildCall) :
    ∃ token expiresAt, call.build crates tokens = .ok (token, expiresAt) ∧
      ∀ now, timestamp now < call.payload.exp →
        verifyDownloadToken tokens call.secret now token = .ok call.payload := by
  obtain ⟨bytes, mac, -, hback, hmac, hbuild⟩ := build_spec crates hlawful call
  refine ⟨_, _, hbuild, fun now hlive => verifyDownloadToken_eq_ok.mpr ?_⟩
  exact ⟨_, _, mac, bytes, call.payload.fields, macQuery_join hlawful bytes _, hmac, rfl, hlawful.base64 bytes, hback,
    rfl, rfl, hlive⟩

/-- A message that was signed carries the claims of its call. -/
theorem signs_unique (hlawful : tokens.Lawful) {payloadB64 : String} {bytes : Bytes} {fields : TokenFields}
    (hsigns : call.Signs tokens payloadB64) (hbase : tokens.base64Decode payloadB64 = some bytes)
    (hjson : tokens.fromJson bytes = some fields) : fields.payload = call.payload := by
  obtain ⟨signed, hsigned, rfl⟩ := hsigns
  obtain ⟨bytes', hjson', hback⟩ := hlawful.json call.payload
  cases hsigned.symm.trans hjson'
  cases (hlawful.base64 signed).symm.trans hbase
  cases hback.symm.trans hjson
  rfl

/-- A token that has not expired is less than ten minutes old. -/
theorem young_of_live (hlive : timestamp now < call.payload.exp) : now < call.now + 10 * 60 * 10 ^ 9 := by
  simp only [BuildCall.payload, newPayload, timestamp, downloadTokenTtlMinutes] at hlive
  omega

/-- Only tokens that were built are accepted, and with their claims. -/
theorem verify_built (hlawful : tokens.Lawful) {events before after : List TokenEvent}
    (hideal : Unforged tokens events) (hsplit : events = before ++ .presented secret now token :: after)
    (hverify : verifyDownloadToken tokens secret now token = .ok payload) :
    ∃ call, .built call ∈ before ∧ call.secret = secret ∧ payload = call.payload ∧
      now < call.now + 10 * 60 * 10 ^ 9 := by
  obtain ⟨payloadB64, tag, mac, bytes, fields, hquery, hmac, htag, hbase, hjson, rfl, -, hlive⟩ :=
    verifyDownloadToken_eq_ok.mp hverify
  obtain ⟨call, hbuilt, hsecret, hsigns⟩ := hideal before secret now token after hsplit payloadB64 tag mac hquery hmac
    htag
  have hpayload := signs_unique hlawful hsigns hbase hjson
  rw [hpayload] at hlive
  exact ⟨call, hbuilt, hsecret, hpayload, young_of_live hlive⟩

/-- A download that is initialised gives out the token that is built for it. -/
theorem initDownload_ensures {ν : Type} {H : (op : fsSignature.Op) → ν → fsSignature.Answer op → ν → Prop} {v : ν}
    {config : AppConfig} {P : Primitives} {unlockState : UnlockState}
    {nonce userId targetId targetType path : String} :
    (initDownload crates tokens config P unlockState now nonce userId targetId targetType path).Ensures H v
      fun result _ => ∀ init, result = .ok init →
        buildDownloadToken crates tokens config.secretKey now nonce userId targetId targetType path =
          .ok (init.token, init.expiresAt) := by
  refine (Program.ensures_true _ v).bind (fun download v' _ => ?_) fun _ _ _ => nofun
  apply Program.ensures_ofExcept_bind
  · intro built hbuilt init hinit
    cases hinit
    exact hbuilt
  · exact fun _ _ => nofun

/-- A chunk is served to the user that the token names. -/
theorem serveChunk_ensures {ν : Type} {H : (op : fsSignature.Op) → ν → fsSignature.Answer op → ν → Prop} {v : ν}
    {config : AppConfig} {P : Primitives} {unlockState : UnlockState} {userId : String} {chunkIndex : Nat} :
    (serveChunk crates tokens config P unlockState now userId token chunkIndex).Ensures H v
      fun result _ => ∀ served, result = .ok served →
        ∃ payload, verifyDownloadToken tokens config.secretKey now token = .ok payload ∧ payload.uid = userId := by
  apply Program.ensures_ofExcept_bind
  · intro payload hverify
    by_cases huser : payload.uid = userId
    · exact (Program.ensures_true _ v).mono fun _ _ _ _ _ => ⟨payload, hverify, huser⟩
    · rw [if_pos huser]
      exact nofun
  · exact fun _ _ => nofun

theorem serveChunk_user {config : AppConfig} {P : Primitives} {unlockState : UnlockState} {userId : String}
    {chunkIndex : Nat} {h : Handler fsSignature Disk} {disk : Disk} {result : ChunkDownloadResult}
    (hserved : ((serveChunk crates tokens config P unlockState now userId token chunkIndex).run h disk).1 =
      .ok result) :
    ∃ payload, verifyDownloadToken tokens config.secretKey now token = .ok payload ∧ payload.uid = userId := by
  obtain ⟨_, -, hensures⟩ := Program.Ensures.run (H := fun _ _ _ _ => True) (R := fun _ _ => True)
    (serveChunk_ensures (v := ())) (fun _ _ _ _ => ⟨(), trivial, trivial⟩) trivial
  exact hensures result hserved

/-- Download tokens are bound and cannot be forged. A token is accepted under its secret until it expires, with the
claims it was built from. Where the code is ideal, any string that is accepted carries the claims of an earlier call
under the same secret, less than ten minutes old; and a chunk is served against it only to the user it names. -/
theorem download_token_bound (crates : Crates) (tokens : TokenCrates) (hlawful : tokens.Lawful) :
    (∀ call : BuildCall, ∃ token expiresAt, call.build crates tokens = .ok (token, expiresAt) ∧
      ∀ now, timestamp now < timestamp (call.now + 10 * 60 * 10 ^ 9) →
        ∃ payload, verifyDownloadToken tokens call.secret now token = .ok payload ∧ call.Claims payload) ∧
    (∀ events, Unforged tokens events → ∀ before secret now token after,
      events = before ++ .presented secret now token :: after →
        ∀ payload, verifyDownloadToken tokens secret now token = .ok payload →
          ∃ call, .built call ∈ before ∧ call.secret = secret ∧ call.Claims payload ∧
            now < call.now + 10 * 60 * 10 ^ 9) ∧
    ∀ (config : AppConfig) (P : Primitives) (unlockState : UnlockState) (now : Int) (userId token : String)
      (chunkIndex : Nat) (h : Handler fsSignature Disk) (disk : Disk) (result : ChunkDownloadResult),
      ((serveChunk crates tokens config P unlockState now userId token chunkIndex).run h disk).1 = .ok result →
        ∃ payload, verifyDownloadToken tokens config.secretKey now token = .ok payload ∧ payload.uid = userId := by
  refine ⟨fun call => ?_, ?_, fun _ _ _ _ _ _ _ _ _ _ => serveChunk_user⟩
  · obtain ⟨token, expiresAt, hbuild, hverify⟩ := build_verifies crates hlawful call
    refine ⟨token, expiresAt, hbuild, fun now hlive => ⟨call.payload, hverify now ?_, claims_payload call⟩⟩
    simp only [BuildCall.payload, newPayload, downloadTokenTtlMinutes, timestamp] at hlive ⊢
    omega
  · intro events hideal before secret now token after hsplit payload hverify
    obtain ⟨call, hbuilt, hsecret, rfl, hyoung⟩ := verify_built hlawful hideal hsplit hverify
    exact ⟨call, hbuilt, hsecret, claims_payload call, hyoung⟩

/-! ### A token and a forgery -/

/-- A text as marked characters, up to a zero. -/
def writeText : List Char → Bytes
  | [] => [0]
  | c :: text => 1 :: (le32 c.toNat ++ writeText text)

def readText : Bytes → Option (List Char × Bytes)
  | 0 :: rest => some ([], rest)
  | 1 :: a :: b :: c :: d :: rest =>
      (readText rest).map fun found => (Char.ofNat (ofLe32 [a, b, c, d]) :: found.1, found.2)
  | _ => none

theorem readText_writeText (text : List Char) (rest : Bytes) :
    readText (writeText text ++ rest) = some (text, rest) := by
  induction text with
  | nil => rfl
  | cons c text ih =>
      have hlt : c.toNat < 2 ^ 32 := c.val.toNat_lt
      have hc : Char.ofNat (ofLe32 (le32 c.toNat)) = c := by
        rw [ofLe32_le32_of_lt hlt, Char.ofNat_toNat]
      show (readText (writeText text ++ rest)).map (fun found => (Char.ofNat (ofLe32 (le32 c.toNat)) :: found.1,
        found.2)) = some (c :: text, rest)
      rw [ih, hc]
      rfl

def readTexts : Nat → Bytes → Option (List (List Char))
  | 0, _ => some []
  | n + 1, bytes => (readText bytes).bind fun found => (readTexts n found.2).map (found.1 :: ·)

theorem readTexts_writeText (texts : List (List Char)) :
    readTexts texts.length (texts.flatMap writeText) = some texts := by
  induction texts with
  | nil => rfl
  | cons text texts ih =>
      rw [List.flatMap_cons, List.length_cons, readTexts, readText_writeText, Option.bind_some, ih]
      rfl

def payloadTexts (payload : DownloadTokenPayload) : List (List Char) :=
  [payload.v.toList, payload.uid.toList, payload.lib.toList, payload.path.toList,
    if payload.exp < 0 then ['-'] else [], Nat.toDigits 10 payload.exp.natAbs, payload.nonce.toList, payload.typ.toList]

/-- Fields one after the other, the bytes in hexadecimal, and a code that remembers only the length of the message. -/
def sampleTokens : TokenCrates where
  hmac key := .ok fun message => (lengthHash (key ++ message)).val
  toJson payload := .ok ((payloadTexts payload).flatMap writeText)
  fromJson bytes :=
    match readTexts 8 bytes with
    | some [v, uid, lib, path, sign, exp, nonce, typ] =>
        some { v := String.ofList v, uid := String.ofList uid, lib := String.ofList lib, path := String.ofList path,
               exp := if sign = [] then Nat.ofDigitChars 10 exp 0 else -(Nat.ofDigitChars 10 exp 0 : Int),
               nonce := String.ofList nonce, typ := some (String.ofList typ) }
    | _ => none
  base64Encode := hexEncode
  base64Decode text := hexDecode text.toList

theorem sampleTokens_lawful : sampleTokens.Lawful where
  hmac key := ⟨_, rfl⟩
  json payload := by
    refine ⟨_, rfl, ?_⟩
    have hread : readTexts 8 ((payloadTexts payload).flatMap writeText) = some (payloadTexts payload) :=
      readTexts_writeText (payloadTexts payload)
    have hexp : (if (if payload.exp < 0 then ['-'] else []) = [] then
        ((Nat.ofDigitChars 10 (Nat.toDigits 10 payload.exp.natAbs) 0 : Nat) : Int)
        else -(Nat.ofDigitChars 10 (Nat.toDigits 10 payload.exp.natAbs) 0 : Int)) = payload.exp := by
      rw [Nat.ofDigitChars_ten_toDigits]
      by_cases hneg : payload.exp < 0
      · rw [if_pos hneg, if_neg (List.cons_ne_nil _ _)]
        omega
      · rw [if_neg hneg, if_pos rfl]
        omega
    simp only [sampleTokens]
    rw [hread, payloadTexts]
    simp only [String.ofList_toList, hexp, DownloadTokenPayload.fields]
  base64 := hexDecode_hexEncode
  base64_dotless bytes hdot := by
    obtain ⟨n, hn, heq⟩ := hexEncode_digits hdot
    exact (hexDigit_plain hn).2.2 heq.symm

def sampleBuild : BuildCall where
  secret := "secret"
  now := 0
  nonce := "n"
  userId := "alice"
  targetId := "l"
  targetType := "library"
  path := "docs/a.b"

/-- Alice's token is built and presented, after a string that is no token and before one under a wrong code. -/
def sampleEvents (token : String) : List TokenEvent :=
  [.presented "secret" 1 "00.zz", .built sampleBuild, .presented "secret" 2 token, .presented "secret" 3 "00.00"]

theorem sampleEvents_unforged {expiresAt : String}
    (hbuild : sampleBuild.build sampleCrates sampleTokens = .ok (token, expiresAt)) :
    Unforged sampleTokens (sampleEvents token) := by
  intro before secret now other after hsplit payloadB64 tag mac hquery hmac htag
  rcases before with _ | ⟨first, before⟩
  · cases hsplit
    have hnone : macQuery "00.zz" = none := by decide
    cases hnone.symm.trans hquery
  rcases before with _ | ⟨second, before⟩
  · cases hsplit
  rcases before with _ | ⟨third, before⟩
  · cases hsplit
    obtain ⟨bytes, mac', hjson, -, -, hspec⟩ := build_spec sampleCrates sampleTokens_lawful sampleBuild
    obtain ⟨rfl, -⟩ := Prod.mk.inj (Except.ok.inj (hbuild.symm.trans hspec))
    rw [macQuery_join sampleTokens_lawful] at hquery
    cases hquery
    exact ⟨sampleBuild, by simp, rfl, bytes, hjson, rfl⟩
  rcases before with _ | ⟨fourth, before⟩
  · cases hsplit
    cases hmac
    have hlength := congrArg List.length htag
    rw [(lengthHash _).property] at hlength
    have hshort : macQuery "00.00" = some ("00", [0]) := by decide
    rw [hshort] at hquery
    cases hquery
    cases hlength
  · simp [sampleEvents] at hsplit

theorem download_token_bound_alice :
    ∃ token expiresAt, sampleBuild.build sampleCrates sampleTokens = .ok (token, expiresAt) ∧
      ∃ payload, verifyDownloadToken sampleTokens "secret" 2 token = .ok payload ∧
        ∃ call : BuildCall, TokenEvent.built call ∈ (sampleEvents token).take 2 ∧ call.secret = "secret" ∧
          call.Claims payload ∧ 2 < call.now + 10 * 60 * 10 ^ 9 := by
  obtain ⟨hbuilds, hbound, -⟩ := download_token_bound sampleCrates sampleTokens sampleTokens_lawful
  obtain ⟨token, expiresAt, hbuild, hverifies⟩ := hbuilds sampleBuild
  obtain ⟨payload, hverify, -⟩ := hverifies 2 (by decide)
  exact ⟨token, expiresAt, hbuild, payload, hverify, hbound (sampleEvents token) (sampleEvents_unforged hbuild) _
    "secret" 2 token _ rfl payload hverify⟩

end ChunkService

end IronDrive
