import OfflineSigner.Hash.Ripemd160
import OfflineSigner.Hash.Sha256
import OfflineSigner.Hash.Sha512
import OfflineSigner.Text.Utf8

/-!
# Hashes made of hashes

The keyed hash HMAC over both members of the SHA-2 family, the twofold hash that names transactions, the short hash that
names public keys, and hashes under a tag.
-/

namespace OfflineSigner.Hash

/-- The key of a keyed hash in one block: a key that is longer than a block is hashed first, and zeros fill the block. -/
def blockKey (size : Nat) (hash : Bytes → Bytes) (key : Bytes) : Bytes :=
  let short := if key.length > size then hash key else key
  short ++ List.replicate (size - short.length) 0

/-- The inner message of a keyed hash. -/
def innerMessage (key message : Bytes) : Bytes := key.map (· ^^^ 0x36) ++ message

/-- The outer message of a keyed hash. -/
def outerMessage (key digest : Bytes) : Bytes := key.map (· ^^^ 0x5c) ++ digest

/-- HMAC over SHA-256. -/
def hmacSha256 (key message : Bytes) : Digest :=
  let k := blockKey 64 (fun bs => (sha256 bs).toList) key
  sha256 (outerMessage k (sha256 (innerMessage k message)).toList)

/-- HMAC over SHA-512. -/
def hmacSha512 (key message : Bytes) : FixedBytes 64 :=
  let k := blockKey 128 (fun bs => (sha512 bs).toList) key
  sha512 (outerMessage k (sha512 (innerMessage k message)).toList)

/-- SHA-256 of the SHA-256 digest. -/
def doubleSha256 (message : Bytes) : Digest := sha256 (sha256 message).toList

/-- RIPEMD-160 of the SHA-256 digest. -/
def hash160 (message : Bytes) : FixedBytes 20 := ripemd160 (sha256 message).toList

/-- The hash of a message under a tag, which stands in front of it twice, hashed: messages under different tags are kept
apart. -/
def tagged (tag : String) (message : Bytes) : Digest :=
  let t := (sha256 (Text.utf8 tag)).toList
  sha256 (t ++ t ++ message)

end OfflineSigner.Hash
