import Mathlib.Data.List.DropRight
import Nosh.Auth.Keys
import Nosh.Lib.Postcard
import Nosh.Lib.Utf8

/-!
# The `known_hosts` file

`lookup_known_host` reads the pinned key of a host, `record_known_host` appends one. The file is
its bytes, or absent. Reading and appending can fail at each call to the file system, and an append
that fails can have written a part of its line.

## Main Definitions

* `SshKey` — the OpenSSH line format of the `ssh_key` crate
* `lookupKnownHost`, `recordKnownHost`
* `AppendIo` — how far an append gets
* `promptHostKeyAccept` — the question to the user
-/

namespace Nosh.Auth

open Nosh.Lib

/-- Reading and writing the `ssh-ed25519 <base64>` line of a key. -/
structure SshKey where
  fromOpensshLine : List Char → Option NoshPublicKey
  toOpensshLine : NoshPublicKey → Option (List Char)

/-- `char::is_whitespace`. -/
def isWhitespace (ch : Char) : Bool :=
  decide (0x09 ≤ ch.toNat ∧ ch.toNat ≤ 0x0D ∨ 0x2000 ≤ ch.toNat ∧ ch.toNat ≤ 0x200A) ||
    [0x20, 0x85, 0xA0, 0x1680, 0x2028, 0x2029, 0x202F, 0x205F, 0x3000].contains ch.toNat

/-- `str::trim`. -/
def trim (text : List Char) : List Char := (text.dropWhile isWhitespace).rdropWhile isWhitespace

/-- `str::lines`: a line ends with LF or CR LF, and the last need not end. -/
def lines (text : List Char) : List (List Char) :=
  let pieces := text.splitOn '\n'
  (if pieces.getLast? = some [] then pieces.dropLast else pieces).map fun piece =>
    if piece.getLast? = some '\r' then piece.dropLast else piece

/-- The key that a line of `known_hosts` gives the host. -/
def lookupLine (ssh : SshKey) (host : List Char) (line : List Char) : Option NoshPublicKey :=
  let line := trim line
  if line = [] ∨ line.head? = some '#' then none
  else
    match line.dropWhile (!isWhitespace ·) with
    | [] => none
    | _ :: keypart =>
        if ((line.takeWhile (!isWhitespace ·)).splitOn ',').any (· == host) then
          ssh.fromOpensshLine (trim keypart)
        else none

/-- The bytes of the file; `none` when there is no file. -/
abbrev KnownHosts := Option (List UInt8)

/-- `lookup_known_host`; `none` when the file cannot be read, or is not UTF-8. -/
def lookupKnownHost (ssh : SshKey) (readable : Bool) (file : KnownHosts) (host : List Char) :
    Option (Option NoshPublicKey) :=
  if !readable then none
  else
    match file with
    | none => some none
    | some bytes =>
        (Postcard.ofUtf8Bytes bytes).map fun text =>
          (lines text.toList).findSome? (lookupLine ssh host)

/-- How far an append to the file gets. -/
inductive AppendIo
  | openFails
  /-- `write_all` fails after it wrote some bytes. -/
  | writeFails (written : ℕ)
  | flushFails
  | syncFails
  | synced
  deriving DecidableEq

/-- The line of a host. -/
def knownHostLine (host openssh : List Char) : List UInt8 :=
  Utf8.encode (host ++ [' '] ++ openssh ++ ['\n'])

/-- `record_known_host`: whether it returns `Ok`, and the file after it. -/
def recordKnownHost (ssh : SshKey) (io : AppendIo) (host : List Char) (key : NoshPublicKey)
    (file : KnownHosts) : Bool × KnownHosts :=
  match ssh.toOpensshLine key with
  | none => (false, file)
  | some openssh =>
      let line := knownHostLine host openssh
      match io with
      | .openFails => (false, file)
      | .writeFails written => (false, some (file.getD [] ++ line.take written))
      | .flushFails | .syncFails => (false, some (file.getD [] ++ line))
      | .synced => (true, some (file.getD [] ++ line))

/-- `parse_yes`. -/
def parseYes (input : List Char) : Bool := trim input == ['y', 'e', 's']

/-- Standard input and error, as the prompt finds them. -/
structure Console where
  isTerminal : Bool
  /-- Every write to standard error succeeds. -/
  writable : Bool
  /-- The line that is read, if standard input is neither closed nor fails. -/
  line : Option (List Char)

/-- `prompt_host_key_accept`; `none` is an error. -/
def promptHostKeyAccept (console : Console) : Option Bool :=
  if !console.writable then none
  else if !console.isTerminal then some false
  else console.line.map parseYes

end Nosh.Auth
