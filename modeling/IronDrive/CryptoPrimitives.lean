import IronDrive.Errors

/-! The functions of the hash and AEAD crates that the crypto service calls, as parameters, with what
their documentation promises. The STREAM encryptor and decryptor carry the key, the stream nonce and the
32-bit segment counter; a segment that is not the last is refused once the counter is at its maximum. -/

namespace IronDrive

open Lib

structure DataKey where
  key : FixedBytes 32
  deriving DecidableEq

/-- Longest plaintext AES-GCM encrypts under one nonce. -/
def maxPlaintextLen : Nat := 2 ^ 36

structure Primitives where
  sha256 : Bytes → FixedBytes 32
  encryptDetached : DataKey → FixedBytes 12 → Bytes → Option (Bytes × FixedBytes 16)
  decrypt : DataKey → FixedBytes 12 → Bytes → Option Bytes
  streamEncrypt : DataKey → FixedBytes 7 → (counter : Nat) → (last : Bool) → Bytes → Option Bytes
  streamDecrypt : DataKey → FixedBytes 7 → (counter : Nat) → (last : Bool) → Bytes → Option Bytes

namespace Primitives

/-- The one-call form of encryption appends the tag. -/
def encrypt (P : Primitives) (key : DataKey) (nonce : FixedBytes 12) (plaintext : Bytes) : Option Bytes :=
  (P.encryptDetached key nonce plaintext).map fun sealed => sealed.1 ++ sealed.2.val

/-- What the AEAD crate documents: it encrypts what is not too long, a ciphertext is the plaintext's
length plus the tag, and what was encrypted decrypts. -/
structure Lawful (P : Primitives) : Prop where
  encryptDetached_isSome : ∀ key nonce plaintext, plaintext.length ≤ maxPlaintextLen →
    (P.encryptDetached key nonce plaintext).isSome
  encryptDetached_length : ∀ key nonce plaintext ciphertext tag,
    P.encryptDetached key nonce plaintext = some (ciphertext, tag) → ciphertext.length = plaintext.length
  decrypt_encrypt : ∀ key nonce plaintext ciphertext,
    P.encrypt key nonce plaintext = some ciphertext → P.decrypt key nonce ciphertext = some plaintext
  streamEncrypt_isSome : ∀ key nonce counter last plaintext, plaintext.length ≤ maxPlaintextLen →
    (P.streamEncrypt key nonce counter last plaintext).isSome
  streamEncrypt_length : ∀ key nonce counter last plaintext ciphertext,
    P.streamEncrypt key nonce counter last plaintext = some ciphertext →
      ciphertext.length = plaintext.length + 16
  streamDecrypt_streamEncrypt : ∀ key nonce counter last plaintext ciphertext,
    P.streamEncrypt key nonce counter last plaintext = some ciphertext →
      P.streamDecrypt key nonce counter last ciphertext = some plaintext

end Primitives

/-- The largest counter of STREAM-BE32. -/
def counterMax : Nat := 2 ^ 32 - 1

structure EncryptorBE32 where
  key : DataKey
  nonce : FixedBytes 7
  counter : Nat

namespace EncryptorBE32

def new (key : DataKey) (nonce : FixedBytes 7) : EncryptorBE32 := ⟨key, nonce, 0⟩

def encryptNext (P : Primitives) (e : EncryptorBE32) (buffer : Bytes) : Option (Bytes × EncryptorBE32) :=
  if e.counter = counterMax then none
  else (P.streamEncrypt e.key e.nonce e.counter false buffer).map
    fun ciphertext => (ciphertext, { e with counter := e.counter + 1 })

def encryptLast (P : Primitives) (e : EncryptorBE32) (buffer : Bytes) : Option Bytes :=
  P.streamEncrypt e.key e.nonce e.counter true buffer

end EncryptorBE32

structure DecryptorBE32 where
  key : DataKey
  nonce : FixedBytes 7
  counter : Nat

namespace DecryptorBE32

def new (key : DataKey) (nonce : FixedBytes 7) : DecryptorBE32 := ⟨key, nonce, 0⟩

def decryptNext (P : Primitives) (d : DecryptorBE32) (buffer : Bytes) : Option (Bytes × DecryptorBE32) :=
  if d.counter = counterMax then none
  else (P.streamDecrypt d.key d.nonce d.counter false buffer).map
    fun plaintext => (plaintext, { d with counter := d.counter + 1 })

def decryptLast (P : Primitives) (d : DecryptorBE32) (buffer : Bytes) : Option Bytes :=
  P.streamDecrypt d.key d.nonce d.counter true buffer

end DecryptorBE32

/-! ### Primitives to run examples with -/

def zeroKey : DataKey := ⟨⟨List.replicate 32 0, by simp⟩⟩

theorem seven_zeros : (List.replicate 7 (0 : UInt8)).length = 7 := List.length_replicate

theorem twelve_zeros : (List.replicate 12 (0 : UInt8)).length = 12 := List.length_replicate

/-- A hash that remembers only the length of its input. -/
def lengthHash (bytes : Bytes) : FixedBytes 32 :=
  ⟨le32 bytes.length ++ List.replicate 28 0, by simp⟩

/-- Encryption that appends a tag naming the key, and decryption that checks it. -/
def keyTag (key : DataKey) : FixedBytes 16 := ⟨key.key.val.take 16, by simp [key.key.property]⟩

def untag (key : DataKey) (ciphertext : Bytes) : Option Bytes :=
  if ciphertext.drop (ciphertext.length - 16) = (keyTag key).val then
    some (ciphertext.take (ciphertext.length - 16))
  else none

/-- Transparent primitives that keep every promise of `Primitives.Lawful`. -/
def plainPrimitives : Primitives where
  sha256 := lengthHash
  encryptDetached key _ plaintext := some (plaintext, keyTag key)
  decrypt key _ ciphertext := untag key ciphertext
  streamEncrypt key _ _ _ plaintext := some (plaintext ++ (keyTag key).val)
  streamDecrypt key _ _ _ ciphertext := untag key ciphertext

theorem untag_append (key : DataKey) (plaintext : Bytes) :
    untag key (plaintext ++ (keyTag key).val) = some plaintext := by
  have hlen : (plaintext ++ (keyTag key).val).length - 16 = plaintext.length := by
    rw [List.length_append, (keyTag key).property]
    omega
  rw [untag, hlen, List.drop_left, if_pos rfl, List.take_left]

theorem plainPrimitives_lawful : plainPrimitives.Lawful where
  encryptDetached_isSome _ _ _ _ := rfl
  encryptDetached_length key nonce plaintext ciphertext tag h := by
    cases h
    rfl
  decrypt_encrypt key nonce plaintext ciphertext h := by
    cases h
    exact untag_append key plaintext
  streamEncrypt_isSome _ _ _ _ _ _ := rfl
  streamEncrypt_length key nonce counter last plaintext ciphertext h := by
    cases h
    rw [List.length_append, (keyTag key).property]
  streamDecrypt_streamEncrypt key nonce counter last plaintext ciphertext h := by
    cases h
    exact untag_append key plaintext

end IronDrive
