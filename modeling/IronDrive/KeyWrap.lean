import IronDrive.CryptoService

/-! Keys wrapped under other keys: a 32-byte key encrypted with AES-GCM behind its nonce. Data keys are
wrapped under the master key, the master key under the secret of the environment. -/

namespace IronDrive

open Lib

structure MasterKey where
  key : FixedBytes 32
  deriving DecidableEq

namespace CryptoService

abbrev keyLen : Nat := 32
abbrev wrappedKeyLen : Nat := nonceLen + keyLen + tagLen

variable (P : Primitives)

/-- Encrypt a 32-byte key. Returns nonce, ciphertext and tag. -/
def aesGcmWrap (wrappingKey : FixedBytes 32) (nonce : FixedBytes 12) (plaintext : FixedBytes 32) :
    Except AppError Bytes :=
  match P.encrypt ⟨wrappingKey⟩ nonce plaintext.val with
  | none => .error (.internal ("AES-256-GCM encrypt failed: " ++ aeadError))
  | some ciphertext => .ok (nonce.val ++ ciphertext)

def aesGcmUnwrap (wrappingKey : FixedBytes 32) (blob : Bytes) : Except AppError (FixedBytes 32) :=
  if blob.length ≠ wrappedKeyLen then
    .error (.internal ("Wrapped key blob has wrong size (" ++ toString blob.length ++
      " bytes, expected exactly " ++ toString wrappedKeyLen ++ ")"))
  else
    match P.decrypt ⟨wrappingKey⟩ (fixedBytes 12 (blob.take nonceLen)) (blob.drop nonceLen) with
    | none => .error (.internal "AES-256-GCM decrypt failed — wrong key or corrupt data")
    | some plaintext =>
        if plaintext.length ≠ keyLen then
          .error (.internal ("Unwrapped key has wrong length: expected " ++ toString keyLen ++ ", got " ++
            toString plaintext.length))
        else .ok (fixedBytes 32 plaintext)

def wrapDataKey (masterKey : MasterKey) (nonce : FixedBytes 12) (dataKey : DataKey) : Except AppError Bytes :=
  aesGcmWrap P masterKey.key nonce dataKey.key

def unwrapDataKey (masterKey : MasterKey) (blob : Bytes) : Except AppError DataKey :=
  (aesGcmUnwrap P masterKey.key blob).map DataKey.mk

variable {P}

/-- A key can always be wrapped. -/
theorem exists_aesGcmWrap (hP : P.Lawful) (wrappingKey : FixedBytes 32) (nonce : FixedBytes 12)
    (plaintext : FixedBytes 32) : ∃ blob, aesGcmWrap P wrappingKey nonce plaintext = .ok blob := by
  have hlen : plaintext.val.length ≤ maxPlaintextLen := by
    rw [fixedBytes_length]
    decide
  have hsome := hP.encryptDetached_isSome ⟨wrappingKey⟩ nonce plaintext.val hlen
  obtain ⟨sealed, hsealed⟩ := Option.isSome_iff_exists.mp hsome
  refine ⟨nonce.val ++ (sealed.1 ++ sealed.2.val), ?_⟩
  rw [aesGcmWrap, Primitives.encrypt, hsealed]
  rfl

/-- Unwrapping returns what was wrapped under the same key. -/
theorem aesGcmUnwrap_of_wrap (hP : P.Lawful) {wrappingKey plaintext : FixedBytes 32} {nonce : FixedBytes 12}
    {blob : Bytes} (h : aesGcmWrap P wrappingKey nonce plaintext = .ok blob) :
    aesGcmUnwrap P wrappingKey blob = .ok plaintext := by
  rw [aesGcmWrap] at h
  cases hencrypt : P.encrypt ⟨wrappingKey⟩ nonce plaintext.val with
  | none =>
      rw [hencrypt] at h
      cases h
  | some ciphertext =>
      rw [hencrypt] at h
      cases h
      have hlen : ciphertext.length = keyLen + tagLen := by
        cases hsealed : P.encryptDetached ⟨wrappingKey⟩ nonce plaintext.val with
        | none =>
            rw [Primitives.encrypt, hsealed] at hencrypt
            cases hencrypt
        | some sealed =>
            rw [Primitives.encrypt, hsealed] at hencrypt
            cases hencrypt
            rw [List.length_append, hP.encryptDetached_length _ _ _ _ _ hsealed, fixedBytes_length,
              fixedBytes_length]
      have htake : (nonce.val ++ ciphertext).take nonceLen = nonce.val :=
        List.take_left' (fixedBytes_length nonce)
      have hdrop : (nonce.val ++ ciphertext).drop nonceLen = ciphertext :=
        List.drop_left' (fixedBytes_length nonce)
      have hnonce : fixedBytes 12 nonce.val = nonce := Subtype.ext (fixedBytes_val (fixedBytes_length nonce))
      have hkey : fixedBytes 32 plaintext.val = plaintext :=
        Subtype.ext (fixedBytes_val (fixedBytes_length plaintext))
      have hblob : (nonce.val ++ ciphertext).length = wrappedKeyLen := by
        rw [List.length_append, fixedBytes_length, hlen]
        rfl
      rw [aesGcmUnwrap, if_neg (not_not.mpr hblob), htake, hdrop, hnonce,
        hP.decrypt_encrypt _ _ _ _ hencrypt]
      simp only [fixedBytes_length, ne_eq, not_true_eq_false, if_false, hkey]

theorem unwrapDataKey_of_wrap (hP : P.Lawful) {masterKey : MasterKey} {nonce : FixedBytes 12} {dataKey : DataKey}
    {blob : Bytes} (h : wrapDataKey P masterKey nonce dataKey = .ok blob) :
    unwrapDataKey P masterKey blob = .ok dataKey := by
  rw [unwrapDataKey, aesGcmUnwrap_of_wrap hP h]
  rfl

end CryptoService

end IronDrive
