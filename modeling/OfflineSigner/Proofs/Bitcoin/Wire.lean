import OfflineSigner.Proofs.Bitcoin.Signing

/-!
# What the bytes of a transaction say

A decoder of transactions with witnesses (`Wire.transaction`), put together from readers that each take what they need from the
front. `Reads read bs a` says that a reader finds `a` in `bs`, whatever follows; it holds of each reader and what the library
writes, as long as that is not too long for its counts (`Countable`). Main statement: a transaction with witnesses is decoded
from its bytes, and nothing is left over (`Wire.decode?_raw`).
-/

namespace OfflineSigner.Bitcoin.Wire

/-! ## The decoder -/

/-- A reader takes what it reads from the front of a byte string, and fails when it is not there. -/
abbrev Reader (α : Type) := StateT Bytes Option α

/-- The next `n` bytes. -/
def bytes (n : Nat) : Reader Bytes := fun bs => if n ≤ bs.length then some (bs.take n, bs.drop n) else none

/-- The next `n` bytes as a string of known length. -/
def fixed (n : Nat) : Reader (FixedBytes n) := fun bs => (FixedBytes.ofList? n (bs.take n)).map fun a => (a, bs.drop n)

/-- A number of `width` bytes, least significant first. -/
def number (width : Nat) : Reader Nat := do return Bytes.toNatLE (← bytes width)

/-- A number of 32 bits. -/
def uint32 : Reader UInt32 := do return UInt32.ofNat (← number 4)

/-- A number of 64 bits. -/
def uint64 : Reader UInt64 := do return UInt64.ofNat (← number 8)

/-- A number of `width` bytes for which no fewer would do. -/
def numberFrom (least width : Nat) : Reader Nat := do
  let n ← number width
  if least ≤ n then return n else failure

/-- A number in as few bytes as its size class takes. -/
def compactSize : Reader Nat := do
  let lead ← number 1
  if lead = 0xfd then numberFrom 0xfd 2
  else if lead = 0xfe then numberFrom 0x10000 4
  else if lead = 0xff then numberFrom 0x100000000 8
  else return lead

/-- A byte string with its length in front. -/
def counted : Reader Bytes := do bytes (← compactSize)

/-- As many as asked for, one after the other. -/
def many {α : Type} (read : Reader α) : Nat → Reader (List α)
  | 0 => return []
  | n + 1 => do
    let a ← read
    let as ← many read n
    return a :: as

/-- As many as the number in front says. -/
def list {α : Type} (read : Reader α) : Reader (List α) := do many read (← compactSize)

/-- What an input spends. -/
def outPoint : Reader OutPoint := do
  let transaction ← fixed 32
  let index ← uint32
  return ⟨transaction, index⟩

/-- An input, whose witness comes later. -/
def input : Reader Input := do
  let outPoint ← outPoint
  let script ← counted
  let sequence ← uint32
  return { outPoint, script, sequence }

/-- An output. -/
def output : Reader Output := do
  let value ← uint64
  let script ← counted
  return ⟨value, script⟩

/-- The witness of an input. -/
def witness : Reader (List Bytes) := list counted

/-- The marker and the flag of a transaction with witnesses. -/
def marker : Reader Unit
  | 0x00 :: 0x01 :: bs => some ((), bs)
  | _ => none

/-- A transaction with witnesses. The witnesses come after the outputs, in the order of the inputs. -/
def transaction : Reader Transaction := do
  let version ← uint32
  marker
  let inputs ← list input
  let outputs ← list output
  let inputs ← inputs.mapM fun i => do return { i with witness := ← witness }
  let lockTime ← uint32
  return { version := version.toInt32, inputs, outputs, lockTime }

/-- The transaction with witnesses in front, and what follows it. -/
def decode? (bs : Bytes) : Option (Transaction × Bytes) := transaction bs

/-! ## Readers and what they find -/

variable {α β : Type}

/-- Whether a reader finds `a` in `bs`, whatever follows. -/
def Reads (read : Reader α) (bs : Bytes) (a : α) : Prop := ∀ rest, read (bs ++ rest) = some (a, rest)

namespace Reads

theorem pure (a : α) : Reads (pure a) [] a := fun _ => rfl

/-- One reader after another finds what is written one after another. -/
theorem bind {read : Reader α} {next : α → Reader β} {bs bs' : Bytes} {a : α} {b : β} (h : Reads read bs a)
    (h' : Reads (next a) bs' b) : Reads (read >>= next) (bs ++ bs') b := by
  intro rest
  have hbind : (read >>= next) (bs ++ bs' ++ rest) = (read (bs ++ bs' ++ rest)).bind fun r => next r.1 r.2 := rfl
  rw [hbind, List.append_assoc, h, Option.bind_some, h']

/-- What is made of what a reader finds. -/
theorem map {read : Reader α} {bs : Bytes} {a : α} (h : Reads read bs a) (f : α → β) :
    Reads (read >>= fun a => Pure.pure (f a)) bs (f a) := by
  have hbind : Reads (read >>= fun a => Pure.pure (f a)) (bs ++ []) (f a) := h.bind (Reads.pure (f a))
  rwa [List.append_nil] at hbind

/-- As many as there are, each found in what is written for it. -/
theorem many {read : Reader β} {write : α → Bytes} {f : α → β} {as : List α}
    (h : ∀ a ∈ as, Reads read (write a) (f a)) : Reads (Wire.many read as.length) (as.flatMap write) (as.map f) := by
  induction as with
  | nil => exact Reads.pure []
  | cons a as ih =>
    have hrest := ih fun a' ha' => h a' (List.mem_cons_of_mem a ha')
    exact (h a List.mem_cons_self).bind (hrest.map fun bs => f a :: bs)

/-- Members that are each completed by what is written for them. -/
theorem mapM {read : β → Reader α} {write : α → Bytes} {f : α → β} {as : List α}
    (h : ∀ a ∈ as, Reads (read (f a)) (write a) a) : Reads ((as.map f).mapM read) (as.flatMap write) as := by
  induction as with
  | nil => exact Reads.pure []
  | cons a as ih =>
    have hrest := ih fun a' ha' => h a' (List.mem_cons_of_mem a ha')
    rw [List.map_cons, List.mapM_cons, List.flatMap_cons]
    exact (h a List.mem_cons_self).bind (hrest.map fun bs => a :: bs)

end Reads

/-! ## Numbers and byte strings -/

theorem reads_bytes (bs : Bytes) : Reads (bytes bs.length) bs bs := by
  intro rest
  rw [bytes, if_pos (by rw [List.length_append]; omega), List.take_left, List.drop_left]

theorem reads_fixed {n : Nat} (bs : FixedBytes n) : Reads (fixed n) bs.toList bs := by
  intro rest
  have htake : (bs.toList ++ rest).take n = bs.toList := List.take_left' bs.length_toList
  have hdrop : (bs.toList ++ rest).drop n = rest := List.drop_left' bs.length_toList
  rw [fixed, htake, hdrop, FixedBytes.ofList?_toList]
  rfl

theorem reads_number {width n : Nat} (h : n < 256 ^ width) : Reads (number width) (Bytes.ofNatLE width n) n := by
  have hbytes := reads_bytes (Bytes.ofNatLE width n)
  rw [Bytes.length_ofNatLE] at hbytes
  have hnumber := hbytes.map Bytes.toNatLE
  rwa [Bytes.toNatLE_ofNatLE_of_lt h] at hnumber

theorem reads_uint32 (n : UInt32) : Reads uint32 (Bytes.ofNatLE 4 n.toNat) n := by
  have hlt : n.toNat < 256 ^ 4 := n.toNat_lt
  have hnumber := (reads_number hlt).map UInt32.ofNat
  rwa [UInt32.ofNat_toNat] at hnumber

theorem reads_uint64 (n : UInt64) : Reads uint64 (Bytes.ofNatLE 8 n.toNat) n := by
  have hlt : n.toNat < 256 ^ 8 := n.toNat_lt
  have hnumber := (reads_number hlt).map UInt64.ofNat
  rwa [UInt64.ofNat_toNat] at hnumber

theorem reads_numberFrom {least width n : Nat} (hleast : least ≤ n) (h : n < 256 ^ width) :
    Reads (numberFrom least width) (Bytes.ofNatLE width n) n := by
  have hrest : Reads (if least ≤ n then Pure.pure n else failure) [] n := by
    rw [if_pos hleast]
    exact Reads.pure n
  have hbind : Reads (numberFrom least width) (Bytes.ofNatLE width n ++ []) n := (reads_number h).bind hrest
  rwa [List.append_nil] at hbind

theorem reads_compactSize {n : Nat} (h : n < 2 ^ 64) : Reads compactSize (Bitcoin.compactSize n) n := by
  have hlead : ∀ b : UInt8, Reads (number 1) [b] b.toNat := by
    intro b
    have hnumber : Reads (number 1) (Bytes.ofNatLE 1 b.toNat) b.toNat := reads_number b.toNat_lt
    rwa [Bytes.ofNatLE, Bytes.ofNatLE, UInt8.ofNat_toNat] at hnumber
  unfold Bitcoin.compactSize
  have h16 : UInt16.size = 0x10000 := rfl
  have h32 : UInt32.size = 0x100000000 := rfl
  split
  · rename_i hlt
    have hn : (UInt8.ofNat n).toNat = n := UInt8.toNat_ofNat_of_lt' (hlt.trans (by decide))
    have hone := hlead (UInt8.ofNat n)
    rw [hn] at hone
    -- A lead byte below the three marks is the number itself.
    have hrest : Reads (if n = 0xfd then numberFrom 0xfd 2 else if n = 0xfe then numberFrom 0x10000 4
        else if n = 0xff then numberFrom 0x100000000 8 else Pure.pure n) [] n := by
      rw [if_neg (by omega), if_neg (by omega), if_neg (by omega)]
      exact Reads.pure n
    exact hone.bind hrest
  · rename_i hfd
    split
    · exact (hlead 0xfd).bind (reads_numberFrom (by omega) (by omega))
    · split
      · exact (hlead 0xfe).bind (reads_numberFrom (by omega) (by omega))
      · exact (hlead 0xff).bind (reads_numberFrom (by omega) (by omega))

theorem reads_counted {bs : Bytes} (h : bs.length < 2 ^ 64) : Reads counted (Bitcoin.counted bs) bs :=
  (reads_compactSize h).bind (reads_bytes bs)

/-- A list is found behind its length when every member is found. -/
theorem reads_list {read : Reader β} {write : α → Bytes} {f : α → β} {as : List α} (hlength : as.length < 2 ^ 64)
    (hread : ∀ a ∈ as, Reads read (write a) (f a)) :
    Reads (list read) (Bitcoin.compactSize as.length ++ as.flatMap write) (as.map f) :=
  (reads_compactSize hlength).bind (Reads.many hread)

/-! ## Inputs, outputs and transactions -/

theorem reads_outPoint (o : OutPoint) : Reads outPoint o.bytes o :=
  (reads_fixed o.transaction).bind ((reads_uint32 o.index).map (OutPoint.mk o.transaction))

theorem reads_input {i : Input} (h : i.script.length < 2 ^ 64) : Reads input i.bytes i.bare := by
  rw [Input.bytes, List.append_assoc]
  exact (reads_outPoint i.outPoint).bind ((reads_counted h).bind ((reads_uint32 i.sequence).map fun sequence =>
    Input.mk i.outPoint i.script sequence []))

theorem reads_output {o : Output} (h : o.script.length < 2 ^ 64) : Reads output o.bytes o :=
  (reads_uint64 o.value).bind ((reads_counted h).map (Output.mk o.value))

theorem reads_witness {i : Input} (hlength : i.witness.length < 2 ^ 64) (h : ∀ bs ∈ i.witness, bs.length < 2 ^ 64) :
    Reads witness i.witnessBytes i.witness := by
  have hlist : Reads witness i.witnessBytes (i.witness.map id) := reads_list hlength fun bs hbs => reads_counted (h bs hbs)
  rwa [List.map_id] at hlist

theorem reads_marker : Reads marker [0x00, 0x01] () := fun _ => rfl

/-- Whether the lists and the byte strings of a transaction are short enough to be counted in 64 bits. -/
structure Countable (t : Transaction) : Prop where
  inputs : t.inputs.length < 2 ^ 64
  outputs : t.outputs.length < 2 ^ 64
  inputScripts : ∀ i ∈ t.inputs, i.script.length < 2 ^ 64
  outputScripts : ∀ o ∈ t.outputs, o.script.length < 2 ^ 64
  witnesses : ∀ i ∈ t.inputs, i.witness.length < 2 ^ 64
  witnessItems : ∀ i ∈ t.inputs, ∀ bs ∈ i.witness, bs.length < 2 ^ 64

namespace Countable

variable {t : Transaction}

theorem reads_inputs (h : Countable t) :
    Reads (list input) (Bitcoin.compactSize t.inputs.length ++ t.inputs.flatMap Input.bytes) (t.inputs.map Input.bare) :=
  reads_list h.inputs fun i hi => reads_input (h.inputScripts i hi)

theorem reads_outputs (h : Countable t) :
    Reads (list output) (Bitcoin.compactSize t.outputs.length ++ t.outputs.flatMap Output.bytes) t.outputs := by
  have hlist : Reads (list output) _ (t.outputs.map id) := reads_list h.outputs fun o ho => reads_output (h.outputScripts o ho)
  rwa [List.map_id] at hlist

/-- The inputs get back the witnesses that are written after the outputs. -/
theorem reads_witnesses (h : Countable t) :
    Reads ((t.inputs.map Input.bare).mapM fun i => do return { i with witness := ← witness })
      (t.inputs.flatMap Input.witnessBytes) t.inputs := by
  apply Reads.mapM
  intro i hi
  exact (reads_witness (h.witnesses i hi) (h.witnessItems i hi)).map fun witness => { i.bare with witness }

end Countable

/-- A transaction with witnesses is found in its bytes. -/
theorem reads_raw {t : Transaction} (hwitness : t.hasWitness = true) (h : Countable t) : Reads transaction t.raw t := by
  have hraw : t.raw = t.versionBytes ++ ([0x00, 0x01] ++
      ((Bitcoin.compactSize t.inputs.length ++ t.inputs.flatMap Input.bytes) ++
        ((Bitcoin.compactSize t.outputs.length ++ t.outputs.flatMap Output.bytes) ++
          (t.inputs.flatMap Input.witnessBytes ++ t.lockTimeBytes)))) := by
    rw [Transaction.raw, if_pos hwitness, Transaction.body]
    simp only [List.append_assoc]
  have hend := (reads_uint32 t.lockTime).map (Transaction.mk t.version.toUInt32.toInt32 t.inputs t.outputs)
  rw [Int32.toInt32_toUInt32] at hend
  rw [hraw]
  exact (reads_uint32 t.version.toUInt32).bind (reads_marker.bind (h.reads_inputs.bind (h.reads_outputs.bind
    (h.reads_witnesses.bind hend))))

/-- Decoding the bytes of a transaction with witnesses gives the transaction, and nothing is left over. -/
theorem decode?_raw {t : Transaction} (hwitness : t.hasWitness = true) (h : Countable t) : decode? t.raw = some (t, []) := by
  have hread := reads_raw hwitness h []
  rwa [List.append_nil] at hread

end OfflineSigner.Bitcoin.Wire
