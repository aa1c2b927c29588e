import OfflineSigner.Failure
import OfflineSigner.Text.Blank
import OfflineSigner.Text.Numeral

/-!
# Derivation paths

A path leads from the master node to a node of the key tree by child numbers, of which the upper half are hardened. Its
text is `m` followed by one component for each, as in `m/86'/0'/0'/0/0`.
-/

namespace OfflineSigner

/-- The number of indexes of each kind of child. -/
def childCount : Nat := 0x80000000

/-- A child's index and whether it is hardened. -/
structure ChildNumber where
  index : Nat
  hardened : Bool
  index_lt : index < childCount
  deriving DecidableEq

/-- A path of at most 255 child numbers, first step first. -/
structure DerivationPath where
  components : List ChildNumber := []
  length_le : components.length ≤ 255 := by decide
  deriving DecidableEq

/-- Why there is no such path. -/
inductive PathError where
  | missingRoot
  | emptyComponent
  | invalidComponent (text : String)
  | indexOutOfRange (index : Nat)
  | tooDeep
  deriving DecidableEq

/-- The wording of a fault. -/
def PathError.message : PathError → String
  | .missingRoot => "Derivation path must start with 'm'"
  | .emptyComponent => "Empty path component"
  | .invalidComponent text => s!"Invalid path component '{text}'"
  | .indexOutOfRange index => s!"Path index {index} exceeds 2^31 - 1"
  | .tooDeep => "Derivation path deeper than 255 levels"

/-- A fault in a path as it is reported. -/
def PathError.report (e : PathError) : Failure := ⟨.invalidDerivationPath, e.message, none⟩

namespace ChildNumber

/-- The child with an index, which has to lie below `2 ^ 31`. -/
def ofIndex (index : Nat) (hardened : Bool) : Except PathError ChildNumber :=
  if h : index < childCount then .ok ⟨index, hardened, h⟩ else .error (.indexOutOfRange index)

/-- The child with a serial number, in which the top bit marks the hardened ones. -/
def ofSerial (n : UInt32) : ChildNumber :=
  ⟨n.toNat % childCount, childCount ≤ n.toNat, Nat.mod_lt _ (by decide)⟩

/-- The serial number of a child: its index, with the top bit set when it is hardened. -/
def serial (c : ChildNumber) : UInt32 := UInt32.ofNat (if c.hardened then c.index + childCount else c.index)

/-- The index, and a stroke for a hardened child. -/
def text (c : ChildNumber) : String := toString c.index ++ if c.hardened then "'" else ""

/-- Whether a character marks a hardened child. -/
def isMark (c : Char) : Bool := c == '\'' || c == 'h' || c == 'H'

/-- A component without the mark at its end, and whether it had one. -/
def splitMark (cs : List Char) : List Char × Bool :=
  match cs.getLast? with
  | some c => if isMark c then (cs.dropLast, true) else (cs, false)
  | none => (cs, false)

/-- The child that a component writes: decimal digits and at most one mark, with blanks around them. The digits have to
write a number of 32 bits before its range is looked at. -/
def parseChars (cs : List Char) : Except PathError ChildNumber :=
  let trimmed := Text.trimChars cs
  if trimmed.isEmpty then .error .emptyComponent
  else
    let (digits, hardened) := splitMark trimmed
    match Text.decimal? digits with
    | some n =>
      if digits.isEmpty ∨ UInt32.size ≤ n then .error (.invalidComponent (String.ofList cs)) else ofIndex n hardened
    | none => .error (.invalidComponent (String.ofList cs))

/-- The child that a component writes. -/
def parse (s : String) : Except PathError ChildNumber := parseChars s.toList

end ChildNumber

namespace DerivationPath

/-- The path of the master node itself. -/
def master : DerivationPath := {}

/-- The path with the given components, of which there may be 255. -/
def ofComponents (cs : List ChildNumber) : Except PathError DerivationPath :=
  if h : cs.length ≤ 255 then .ok ⟨cs, h⟩ else .error .tooDeep

/-- The number of components. -/
def length (p : DerivationPath) : Nat := p.components.length

/-- The path with one more step. -/
def child (p : DerivationPath) (c : ChildNumber) : Except PathError DerivationPath :=
  ofComponents (p.components ++ [c])

/-- The path that starts with hardened children and goes on with others, by their indexes. -/
def ofIndexes (hardened normal : List Nat) : Except PathError DerivationPath := do
  let hs ← hardened.mapM (ChildNumber.ofIndex · true)
  let ns ← normal.mapM (ChildNumber.ofIndex · false)
  ofComponents (hs ++ ns)

/-- The path of a single-key Taproot address. -/
def taproot (coin account change index : Nat) : Except PathError DerivationPath :=
  ofIndexes [86, coin, account] [change, index]

/-- The path of an EVM address. -/
def evm (account index : Nat) : Except PathError DerivationPath := ofIndexes [44, 60, account] [0, index]

/-- The text of a path. -/
def text (p : DerivationPath) : String := String.join ("m" :: p.components.map fun c => "/" ++ c.text)

/-- The pieces of a text between its slashes. There is always at least one. -/
def pieces : List Char → List (List Char)
  | [] => [[]]
  | c :: cs =>
    if c = '/' then [] :: pieces cs
    else
      match pieces cs with
      | piece :: rest => (c :: piece) :: rest
      | [] => [[c]]

/-- The path that a text writes. -/
def parse (s : String) : Except PathError DerivationPath :=
  match Text.trimChars s.toList with
  | [] => .error .missingRoot
  | root :: rest =>
    if root ≠ 'm' ∧ root ≠ 'M' then .error .missingRoot
    else
      match rest with
      | [] => .ok master
      | slash :: body =>
        if slash ≠ '/' then .error .missingRoot
        else do
          let components ← (pieces body).mapM ChildNumber.parseChars
          ofComponents components

end DerivationPath

end OfflineSigner
