import OfflineSigner.Account
import OfflineSigner.Document.Config
import OfflineSigner.Document.Request

/-!
# The command line

Three commands: to derive an account from a seed, and to sign a request for either family of chains. What a command answers
depends on its arguments, the files it names and the standard input, and on nothing else.
-/

namespace OfflineSigner.CommandLine

/-- What an account is to be derived for. -/
structure DeriveOptions where
  seed : String
  chain : Chain
  network : Network := .mainnet
  change : Nat := 0
  index : Nat := 0
  deriving DecidableEq

/-- What is to be done. -/
inductive Action where
  | derive (options : DeriveOptions)
  | signEvm (input : String)
  | signBitcoin (input : String)
  deriving DecidableEq

/-- A command with the file of its configuration. -/
structure Command where
  config : Option String := none
  action : Action
  deriving DecidableEq

/-- The faults of the system that reading a file ends in. -/
inductive SystemFault where
  | missing
  | device
  | denied
  | notDirectory
  | directory
  | longName
  | linkLoop
  deriving DecidableEq

namespace SystemFault

/-- All faults. -/
def all : List SystemFault := [missing, device, denied, notDirectory, directory, longName, linkLoop]

/-- The number that the system gives a fault. -/
def number : SystemFault → Nat
  | missing => 2
  | device => 5
  | denied => 13
  | notDirectory => 20
  | directory => 21
  | longName => 36
  | linkLoop => 40

/-- The fault with a given number. -/
def ofNumber? (n : Nat) : Option SystemFault := all.find? (·.number == n)

/-- The fault in words. -/
def wording : SystemFault → String
  | missing => "No such file or directory"
  | device => "Input/output error"
  | denied => "Permission denied"
  | notDirectory => "Not a directory"
  | directory => "Is a directory"
  | longName => "File name too long"
  | linkLoop => "Too many levels of symbolic links"

/-- The fault as it is reported. -/
def message (f : SystemFault) : String := s!"{f.wording} (os error {f.number})"

end SystemFault

/-- What comes of reading a file, or the standard input. -/
inductive FileText where
  | text (s : String)
  /-- Bytes that are no text in UTF-8. -/
  | malformed
  | fault (f : SystemFault)

/-- The text of a file, or the wording of why there is none. -/
def FileText.get : FileText → Except String String
  | text s => .ok s
  | malformed => .error "stream did not contain valid UTF-8"
  | fault f => .error f.message

/-- What a command answers. -/
structure Answer where
  exitCode : UInt32
  output : String
  deriving DecidableEq

/-! ## Reading the arguments -/

/-- The options and the operands of one part of the arguments: those before the command's name, or those after it. -/
structure Part where
  values : List (String × String) := []
  debug : Bool := false
  operands : List String := []

/-- The value of an option. -/
def Part.value? (part : Part) (name : String) : Option String := part.values.lookup name

/-- The part with the value of one more option, which may be given once. -/
def Part.set? (part : Part) (name value : String) : Option Part :=
  if (part.value? name).isSome then none else some { part with values := (name, value) :: part.values }

/-- The part with the debug mark, which may be given once. -/
def Part.mark? (part : Part) : Option Part := if part.debug then none else some { part with debug := true }

/-- An option's name and the value written behind it after an equals sign. -/
def splitOption (cs : List Char) : String × Option String :=
  let name := String.ofList (cs.takeWhile (· ≠ '='))
  match cs.dropWhile (· ≠ '=') with
  | [] => (name, none)
  | _ :: value => (name, some (String.ofList value))

/-- Whether an argument can be the value of the option before it, or an operand. -/
def isPlain (argument : String) : Bool :=
  match argument.toList with
  | '-' :: _ :: _ => false
  | _ => true

/-- Reads options named in `names` and operands. Reading ends before the first operand when `stop` holds; what is left is
given back. After `--` all arguments are operands, so there has to be a command's name before it. -/
def readPart (names : List String) (stop : Bool) : List String → Part → Option (Part × List String)
  | [], part => some (part, [])
  | argument :: rest, part =>
    match argument.toList with
    | ['-', '-'] =>
      if stop then none else some ({ part with operands := part.operands ++ rest }, [])
    | '-' :: '-' :: option =>
      match splitOption option with
      | ("debug", none) => do readPart names stop rest (← part.mark?)
      | (name, some value) =>
        if names.contains name then do readPart names stop rest (← part.set? name value) else none
      | (name, none) =>
        if names.contains name then
          match rest with
          | value :: rest' => if isPlain value then do readPart names stop rest' (← part.set? name value) else none
          | [] => none
        else none
    | '-' :: _ :: _ => none
    | _ =>
      if stop then some (part, argument :: rest)
      else readPart names stop rest { part with operands := part.operands ++ [argument] }

/-- A number of 32 bits: digits after an optional sign. -/
def number? (s : String) : Option Nat :=
  let (negative, digits) := match s.toList with
    | '-' :: rest => (true, rest)
    | '+' :: rest => (false, rest)
    | cs => (false, cs)
  if digits.isEmpty then none
  else (Text.decimal? digits).filter fun n => if negative then n = 0 else n < UInt32.size

/-- An option's value through a reader, or the usual value where the option is not given. -/
def Part.valueWith? {α : Type} (part : Part) (name : String) (usual : α) (read : String → Option α) : Option α :=
  match part.value? name with
  | some s => read s
  | none => some usual

/-- The chain with a given name. -/
def chain? (s : String) : Option Chain := [Chain.bitcoin, Chain.evm].find? fun c => c.name == s

/-- What an account is to be derived for, from the options. -/
def deriveOptions? (part : Part) : Option DeriveOptions := do
  let seed ← part.value? "seed"
  let chain ← chain? (← part.value? "chain")
  let network ← part.valueWith? "network" .mainnet fun s => (Network.parse s).toOption
  let change ← part.valueWith? "change" 0 number?
  let index ← part.valueWith? "index" 0 number?
  if part.operands.isEmpty then some { seed, chain, network, change, index } else none

/-- The one operand of a command to sign. -/
def operand? (part : Part) : Option String :=
  match part.operands with
  | [input] => some input
  | _ => none

/-- The file of the configuration; it may be named before or after the command's name, and its name is not empty. Named
twice, the later one counts. -/
def configFile? (before after : Part) : Option (Option String) :=
  let named (part : Part) : Option (Option String) :=
    match part.value? "config" with
    | some file => if file.isEmpty then none else some (some file)
    | none => some none
  match named before, named after with
  | some first, some second => some (second.or first)
  | _, _ => none

/-- The command that arguments mean; none when they are not used rightly. -/
def parse? (arguments : List String) : Option Command := do
  let (before, rest) ← readPart ["config"] true arguments {}
  let name :: rest := rest | none
  let names := if name = "derive" then ["config", "seed", "chain", "network", "change", "index"] else ["config"]
  let (after, _) ← readPart names false rest {}
  let config ← configFile? before after
  match name with
  | "derive" => return { config, action := .derive (← deriveOptions? after) }
  | "sign-evm" => return { config, action := .signEvm (← operand? after) }
  | "sign-btc" => return { config, action := .signBitcoin (← operand? after) }
  | _ => none

/-! ## Carrying out a command -/

/-- The outside world as a command sees it. -/
structure World where
  file : String → FileText
  input : FileText

/-- The configuration of a command. -/
def loadConfig (world : World) : Option String → Except Failure Config
  | none => .ok {}
  | some path =>
    match (world.file path).get with
    | .error fault => .error ⟨.configError, s!"Cannot read config {path}: {fault}", none⟩
    | .ok text => Document.readConfig text

/-- The text of a request: a file, or the standard input for `-`. -/
def requestText (world : World) (input : String) : Except Failure String :=
  let (source, content) :=
    if input = "-" then ("from stdin", world.input) else (s!"file {input}", world.file input)
  match content.get with
  | .error fault => .error ⟨.internal, s!"reading request {source}: {fault}", none⟩
  | .ok text => .ok text

/-- An account as a value. -/
def accountValue (chain : Chain) (path : DerivationPath) (address : String) (publicKey : Bytes)
    (secret : Curve.SecretKey) : Json.Value :=
  .object [
    ("chain", .string chain.name),
    ("path", .string path.text),
    ("address", .string address),
    ("public_key", .string (Hex.encode publicKey)),
    ("private_key", .string (Hex.encode secret.toBytes.toList))]

/-- The account that options ask for. -/
def account (options : DeriveOptions) : Except Failure Json.Value := do
  let seed ← (Hex.decode (Text.trim options.seed)).mapError fun e =>
    ⟨.invalidInput, s!"Seed is not valid hex: {e.message}", none⟩
  match options.chain with
  | .bitcoin =>
    let a ← TaprootAccount.derive seed options.network 0 options.change options.index
    return accountValue .bitcoin a.path a.address.text a.internalKey.toBytes.toList a.secret
  | .evm =>
    let a ← EvmAccount.derive seed options.index
    return accountValue .evm a.path (EvmAddress.text a.address) a.publicKey.compressed.toList a.secret

/-- What an action gives. -/
def result (world : World) (config : Config) : Action → Except Failure Json.Value
  | .derive options => account options
  | .signEvm input => do
    let text ← requestText world input
    let request ← (Json.read Document.evmRequest text).mapError Document.reportJson
    return Document.ofSigned (← request.sign config)
  | .signBitcoin input => do
    let text ← requestText world input
    let request ← (Json.read Document.bitcoinRequest text).mapError Document.reportJson
    return Document.ofSigned (← request.sign config)

/-- What a command answers. The configuration is read before anything else. -/
def run (world : World) (command : Command) : Answer :=
  match (loadConfig world command.config).bind fun config => result world config command.action with
  | .ok value => ⟨0, value.pretty ++ "\n"⟩
  | .error failure => ⟨1, (Document.ofFailure failure).pretty ++ "\n"⟩

/-- What arguments are answered with. -/
def answer (world : World) (arguments : List String) : Answer :=
  match parse? arguments with
  | some command => run world command
  | none => ⟨2, ""⟩

/-- The files that a command reads. -/
def Command.files (command : Command) : List String :=
  let input := match command.action with
    | .derive _ => []
    | .signEvm input => [input]
    | .signBitcoin input => [input]
  command.config.toList ++ input.filter (· ≠ "-")

/-- Whether a command reads the standard input. -/
def Command.readsInput (command : Command) : Bool :=
  match command.action with
  | .derive _ => false
  | .signEvm input => input == "-"
  | .signBitcoin input => input == "-"

end OfflineSigner.CommandLine
