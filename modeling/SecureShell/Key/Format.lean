import SecureShell.Algorithm.Error
import SecureShell.Key.Identity
import SecureShell.Text.Blank

/-!
# Public keys as text

A format writes an identity and a comment as text and reads them back. The built-in one is a line
of the algorithm's name, the key in Base64 and the comment, with blanks between them.
-/

namespace SecureShell

/-- A textual form of public keys. -/
structure KeyFormat where
  /-- The name that the format is registered under. -/
  name : String
  /-- The text of a key and a comment. -/
  encode : Identity → String → String
  /-- The key and the comment of a text. -/
  decode : String → Except CryptoError (Identity × String)

namespace KeyLine

/-- The line of a key. An empty comment is left out with the blank before it. -/
def encode (k : Identity) (comment : String) : String :=
  let line := k.algorithm ++ " " ++ Base64.encode k.blob
  if comment.isEmpty then line else line ++ " " ++ comment

/-- The three parts of a line: the first two words, as far as there are any, and what follows. -/
def parts (line : String) : List Char × Option (List Char) × List Char :=
  let (first, rest) := Text.splitBlank (Text.trim line.toList)
  match rest with
  | none => (first, none, [])
  | some rest =>
    let (second, rest) := Text.splitBlank rest
    (first, some second, rest.getD [])

/-- The key and the comment of a line. The first word has to be the name that the key itself
starts with. -/
def decode? (line : String) : Option (Identity × String) := do
  let (first, second, rest) := parts line
  if first.isEmpty then none
  let k : Identity := ⟨← Base64.decode? (String.ofList (← second))⟩
  if k.algorithm = String.ofList first then some (k, String.ofList (Text.trim rest)) else none

/-- The format of key lines. -/
def format : KeyFormat where
  name := "openssh"
  encode := encode
  decode line := match decode? line with
    | some r => .ok r
    | none => .error .invalidPublicKey

end KeyLine

end SecureShell
