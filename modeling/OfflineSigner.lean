import OfflineSigner.Document.Signature
import OfflineSigner.Log
import OfflineSigner.Main
import OfflineSigner.Proofs.Bytes
import OfflineSigner.Proofs.Rlp.Boundary
import OfflineSigner.Proofs.Evm.Payload
import OfflineSigner.Proofs.Curve.Modular
import OfflineSigner.Proofs.Curve.Prime
import OfflineSigner.Proofs.Curve.Residue
import OfflineSigner.Proofs.Curve.Group
import OfflineSigner.Proofs.Curve.Multiple
import OfflineSigner.Proofs.Curve.Key
import OfflineSigner.Proofs.Curve.Ecdsa
import OfflineSigner.Proofs.Rlp.Decode
import OfflineSigner.Proofs.Rlp.Canonical
import OfflineSigner.Proofs.Rlp.Tree
import OfflineSigner.Proofs.Evm.Wire
import OfflineSigner.Proofs.Checked
import OfflineSigner.Proofs.Curve.Schnorr
import OfflineSigner.Proofs.Taproot
import OfflineSigner.Proofs.Bitcoin.Build
import OfflineSigner.Proofs.Bitcoin.Signing
import OfflineSigner.Proofs.Address.Bech32
import OfflineSigner.Proofs.Address.Bitcoin
import OfflineSigner.Proofs.Account
import OfflineSigner.Proofs.Evm.Signed
import OfflineSigner.Proofs.ExtendedKey.Public
import OfflineSigner.Proofs.ExtendedKey.Position
import OfflineSigner.Proofs.ExtendedKey.Bip32
import OfflineSigner.Proofs.Bitcoin.Wire
import OfflineSigner.Proofs.Bitcoin.Script
import OfflineSigner.Proofs.Hex
import OfflineSigner.Proofs.Bitcoin.Fee
import OfflineSigner.Proofs.Bitcoin.Accept
import OfflineSigner.Proofs.Bitcoin.Serialized
import OfflineSigner.Proofs.Bitcoin.ContextFree
import OfflineSigner.Proofs.Bitcoin.Partial
import OfflineSigner.Proofs.Bitcoin.Refusal
import OfflineSigner.Proofs.Text
import OfflineSigner.Proofs.Amount
import OfflineSigner.Proofs.Amount.Reading
import OfflineSigner.Proofs.Amount.Writing
import OfflineSigner.Proofs.Address.Evm
import OfflineSigner.Proofs.Address.Evm.Forms
import OfflineSigner.Proofs.Evm.Intent
import OfflineSigner.Proofs.Evm.Asset
import OfflineSigner.Proofs.Evm.Account
import OfflineSigner.Proofs.Path
import OfflineSigner.Proofs.Address.Base58
import OfflineSigner.Proofs.ExtendedKey.Text
import OfflineSigner.Proofs.Taproot.Address
import OfflineSigner.Proofs.Taproot.Signing
import OfflineSigner.Proofs.Request.Bitcoin
import OfflineSigner.Proofs.Text.Numeral
import OfflineSigner.Proofs.Request.Quantity
import OfflineSigner.Proofs.Evm.FieldV
import OfflineSigner.Proofs.Evm.Outcome
import OfflineSigner.Proofs.Evm.Fee
import OfflineSigner.Proofs.Request.Spelling
import OfflineSigner.Proofs.Log
import OfflineSigner.Proofs.Address.Networks
import OfflineSigner.Proofs.Json.Layout
import OfflineSigner.Proofs.Json.Lexeme
import OfflineSigner.Proofs.Json.Step
import OfflineSigner.Proofs.Json.Skip
import OfflineSigner.Proofs.Json.Reads
import OfflineSigner.Proofs.Json.Record
import OfflineSigner.Proofs.Document.Bitcoin
import OfflineSigner.Proofs.Document.Spelling
import OfflineSigner.Proofs.Bitcoin.OutputScript
import OfflineSigner.Proofs.Json.Literal
import OfflineSigner.Proofs.Json.Written
import OfflineSigner.Proofs.Document.Failure
import OfflineSigner.Proofs.Document.ReadBack
import OfflineSigner.Proofs.Document.Config
import OfflineSigner.Proofs.Document.Override
