import OfflineSigner.Address.Base58
import OfflineSigner.Address.Bech32
import OfflineSigner.Curve.Key
import OfflineSigner.Network
import OfflineSigner.Text.Blank
import OfflineSigner.Text.Utf8

/-!
# Bitcoin addresses

Two families of texts: segwit addresses with a marker of their network, and older ones whose version byte tells the main
network from the test networks. An address stands for a script, which does not depend on the network.
-/

namespace OfflineSigner

/-- The networks that the marker of a segwit address can mean. -/
inductive SegwitMarker where
  | main
  | test
  | regtest
  deriving DecidableEq

/-- What an address pays to, with the networks it is good for. -/
inductive BitcoinAddress where
  /-- The hash of a public key. -/
  | keyHash (test : Bool) (hash : FixedBytes 20)
  /-- The hash of a script. -/
  | scriptHash (test : Bool) (hash : FixedBytes 20)
  /-- A witness program. -/
  | segwit (marker : SegwitMarker) (program : Address.Bech32.Program)
  deriving DecidableEq

namespace SegwitMarker

/-- The marker as it is written. -/
def text : SegwitMarker → String
  | main => "bc"
  | test => "tb"
  | regtest => "bcrt"

/-- The marker with a given text. -/
def ofText? (s : String) : Option SegwitMarker := [main, test, regtest].find? fun m => m.text == s

/-- The marker of a network. -/
def ofNetwork : Network → SegwitMarker
  | .mainnet => main
  | .testnet => test
  | .signet => test
  | .regtest => regtest

end SegwitMarker

namespace BitcoinAddress

/-- The usual kinds of what an address pays to. -/
inductive Kind where
  | p2pkh
  | p2sh
  | p2wpkh
  | p2wsh
  | p2tr
  | p2a
  deriving DecidableEq

/-- The usual name of a kind. -/
def Kind.name : Kind → String
  | p2pkh => "p2pkh"
  | p2sh => "p2sh"
  | p2wpkh => "p2wpkh"
  | p2wsh => "p2wsh"
  | p2tr => "p2tr"
  | p2a => "p2a"

/-- Why a text is no address of a network. -/
inductive Error where
  /-- A segwit address with a marker of no known network. -/
  | unknownMarker
  /-- No segwit address, and too long for an older one. -/
  | tooLong
  /-- A character, length or checksum that no older address has. -/
  | base58
  /-- An older address with a payload of the wrong length. -/
  | payloadLength
  /-- An older address with an unknown version byte. -/
  | version
  /-- An address of other networks. -/
  | wrongNetwork (network : Network)
  deriving DecidableEq

/-- The wording of a fault. -/
def Error.message : Error → String
  | .unknownMarker => "Address error: tried to parse an unknown hrp"
  | .tooLong => "Address error: legacy address base58 string"
  | .base58 => "Address error: base58 error"
  | .payloadLength => "Address error: legacy address base58 data"
  | .version => "Address error: legacy address base58 prefix"
  | .wrongNetwork network => s!"Address not valid on {network.name}: validation error"

/-- A fault in an address as it is reported. -/
def Error.report (e : Error) : Failure := ⟨.invalidAddress, e.message, none⟩

/-- An address of the older family from its payload. -/
def ofPayload (payload : Bytes) : Except Error BitcoinAddress :=
  match payload with
  | version :: rest =>
    match FixedBytes.ofList? 20 rest with
    | none => .error .payloadLength
    | some hash =>
      if version = 0 then .ok (.keyHash false hash)
      else if version = 5 then .ok (.scriptHash false hash)
      else if version = 111 then .ok (.keyHash true hash)
      else if version = 196 then .ok (.scriptHash true hash)
      else .error .version
  | [] => .error .payloadLength

/-- The address that a list of characters writes, of whatever network. -/
def read (cs : List Char) : Except Error BitcoinAddress :=
  match Address.Bech32.decode? cs with
  | some (marker, program) =>
    match SegwitMarker.ofText? marker with
    | some m => .ok (.segwit m program)
    | none => .error .unknownMarker
  | none =>
    if 50 < Text.utf8Size cs then .error .tooLong
    else
      match Address.Base58.decodeChecked? cs with
      | some payload => ofPayload payload
      | none => .error .base58

/-- Whether an address is good for a network. -/
def fits : BitcoinAddress → Network → Bool
  | .keyHash test _, network => test == network.isTest
  | .scriptHash test _, network => test == network.isTest
  | .segwit marker _, network => marker == SegwitMarker.ofNetwork network

/-- The address of a network that a text writes, with blanks around it allowed. -/
def parse (s : String) (network : Network) : Except Error BitcoinAddress := do
  let a ← read (Text.trimChars s.toList)
  if a.fits network then .ok a else .error (.wrongNetwork network)

/-- The text of an address. -/
def text : BitcoinAddress → String
  | .keyHash test hash => Address.Base58.encodeChecked ((if test then 111 else 0) :: hash.toList)
  | .scriptHash test hash => Address.Base58.encodeChecked ((if test then 196 else 5) :: hash.toList)
  | .segwit marker program => Address.Bech32.encode marker.text program

/-- The script of a witness program: its version, and one push. -/
def programScript (p : Address.Bech32.Program) : Bytes :=
  (if p.version = 0 then 0x00 else UInt8.ofNat (0x50 + p.version)) :: UInt8.ofNat p.bytes.length :: p.bytes

/-- The script that an address stands for. -/
def script : BitcoinAddress → Bytes
  | .keyHash _ hash => [0x76, 0xa9, 0x14] ++ hash.toList ++ [0x88, 0xac]
  | .scriptHash _ hash => [0xa9, 0x14] ++ hash.toList ++ [0x87]
  | .segwit _ program => programScript program

/-- The kind of what an address pays to, when it is a usual one. -/
def kind? : BitcoinAddress → Option Kind
  | .keyHash _ _ => some .p2pkh
  | .scriptHash _ _ => some .p2sh
  | .segwit _ p =>
    if p.version = 0 ∧ p.bytes.length = 20 then some .p2wpkh
    else if p.version = 0 ∧ p.bytes.length = 32 then some .p2wsh
    else if p.version = 1 ∧ p.bytes.length = 32 then some .p2tr
    else if p.version = 1 ∧ p.bytes = [0x4e, 0x73] then some .p2a
    else none

/-- Whether a text writes a Taproot address of a network. -/
def isTaproot (s : String) (network : Network) : Bool :=
  match parse s network with
  | .ok a => a.kind? == some .p2tr
  | .error _ => false

end BitcoinAddress

end OfflineSigner
