-- SUMMARY: Message authentication codes from SHA-256 and a secret key.
import Guildhall.Digest.Sha256

/-!
# HMAC

The authentication code of RFC 2104 with SHA-256. Keys longer than a block are hashed first,
shorter ones are filled up with zeros.
-/

namespace Guildhall.Hmac

/-- The key as a block of sixty-four bytes. -/
def blockKey (key : List UInt8) : List UInt8 :=
  let short := if key.length > 64 then Sha256.digest key else key
  short ++ List.replicate (64 - short.length) 0

/-- The code of a message under a key. -/
def sign (key message : List UInt8) : List UInt8 :=
  let block := blockKey key
  let inner := Sha256.digest (block.map (· ^^^ 0x36) ++ message)
  Sha256.digest (block.map (· ^^^ 0x5c) ++ inner)

end Guildhall.Hmac
