import OfflineSigner.Proofs.Rlp.Canonical
import Mathlib.Data.List.Forall2
import Mathlib.Data.List.Induction

/-!
# Trees of byte strings and numbers

An item is written from a tree whose leaves are byte strings and numbers of both widths, and a list is filled step by step.
`Tree.Shows` says which item a tree stands for: a number is a byte string without zeros in front that writes it. Main statement:
`tree_read_back`, that the strict decoder reads exactly that item back, in front of whatever follows, from a tree as
from a list that steps have filled, and that no two encodings are confused.
-/

namespace OfflineSigner.Rlp

/-! ## Trees -/

/-- What an item is written from. -/
inductive Tree where
  | bytes (bs : Bytes)
  | uint64 (n : UInt64)
  | word (n : BitVec 256)
  | list (trees : List Tree)

namespace Tree

mutual

/-- The encoding of a tree. -/
def encode : Tree → Bytes
  | .bytes bs => encodeBytes bs
  | .uint64 n => encodeUInt64 n
  | .word n => encodeWord n
  | .list trees => encodeList (encodeAll trees)

/-- The encodings of trees, one by one. -/
def encodeAll : List Tree → List Bytes
  | [] => []
  | tree :: trees => tree.encode :: encodeAll trees

end

/-- Whether an item is what a tree stands for. Numbers are byte strings without zeros in front. -/
inductive Shows : Tree → Item → Prop
  | bytes (bs : Bytes) : Shows (.bytes bs) (.bytes bs)
  | uint64 {n : UInt64} {bs : Bytes} (head : bs.head? ≠ some 0) (value : bs.toNatBE = n.toNat) :
    Shows (.uint64 n) (.bytes bs)
  | word {n : BitVec 256} {bs : Bytes} (head : bs.head? ≠ some 0) (value : bs.toNatBE = n.toNat) :
    Shows (.word n) (.bytes bs)
  | list {trees : List Tree} {items : List Item} (all : List.Forall₂ Shows trees items) : Shows (.list trees) (.list items)

mutual

/-- The item that a tree stands for. -/
def item : Tree → Item
  | .bytes bs => .bytes bs
  | .uint64 n => .bytes (numberBytes 8 n.toNat)
  | .word n => .bytes (numberBytes 32 n.toNat)
  | .list trees => .list (items trees)

/-- The items that trees stand for. -/
def items : List Tree → List Item
  | [] => []
  | tree :: trees => tree.item :: items trees

end

theorem encodeAll_eq_map (trees : List Tree) : encodeAll trees = trees.map encode := by
  induction trees with
  | nil => rfl
  | cons tree trees ih => rw [encodeAll, ih, List.map_cons]

mutual

theorem encode_item (tree : Tree) : tree.item.encode = tree.encode := by
  cases tree with
  | bytes bs => rw [item, Item.encode, encode]
  | uint64 n => rw [item, Item.encode, encode, encodeUInt64]
  | word n => rw [item, Item.encode, encode, encodeWord]
  | list trees => rw [item, Item.encode, encode, encodeAll_items]

theorem encodeAll_items (trees : List Tree) : Item.encodeAll (items trees) = encodeAll trees := by
  cases trees with
  | nil => rw [items, Item.encodeAll, encodeAll]
  | cons tree trees => rw [items, Item.encodeAll, encodeAll, encode_item tree, encodeAll_items trees]

end

/-- A number's bytes without zeros in front are the ones that write it. -/
theorem eq_numberBytes_iff (width : Nat) {n : Nat} (hn : n < 256 ^ width) {bs : Bytes} :
    bs = numberBytes width n ↔ bs.head? ≠ some 0 ∧ bs.toNatBE = n := by
  have hvalue : (numberBytes width n).toNatBE = n := by rw [toNatBE_numberBytes, Nat.mod_eq_of_lt hn]
  constructor
  · rintro rfl
    exact ⟨head?_numberBytes width n, hvalue⟩
  · rintro ⟨hhead, hbs⟩
    exact Bytes.toNatBE_inj_of_head hhead (head?_numberBytes width n) (hbs.trans hvalue.symm)

theorem toNat_lt_pow (n : BitVec 256) : n.toNat < 256 ^ 32 := n.isLt.trans_le (by decide)

mutual

/-- A tree stands for its item, and for no other. -/
theorem shows_iff (tree : Tree) (shown : Item) : tree.Shows shown ↔ shown = tree.item := by
  cases tree with
  | bytes bs =>
    rw [item]
    constructor
    · rintro ⟨⟩
      rfl
    · rintro rfl
      exact .bytes bs
  | uint64 n =>
    rw [item]
    constructor
    · rintro ⟨⟩
      rename_i bs hhead hvalue
      rw [(eq_numberBytes_iff 8 n.toNat_lt).mpr ⟨hhead, hvalue⟩]
    · rintro rfl
      obtain ⟨hhead, hvalue⟩ := (eq_numberBytes_iff 8 n.toNat_lt).mp rfl
      exact .uint64 hhead hvalue
  | word n =>
    rw [item]
    constructor
    · rintro ⟨⟩
      rename_i bs hhead hvalue
      rw [(eq_numberBytes_iff 32 (toNat_lt_pow n)).mpr ⟨hhead, hvalue⟩]
    · rintro rfl
      obtain ⟨hhead, hvalue⟩ := (eq_numberBytes_iff 32 (toNat_lt_pow n)).mp rfl
      exact .word hhead hvalue
  | list trees =>
    rw [item]
    constructor
    · rintro ⟨⟩
      rename_i shown hall
      rw [(forall₂_shows_iff trees shown).mp hall]
    · rintro rfl
      exact .list ((forall₂_shows_iff trees _).mpr rfl)

/-- Trees stand for their items, and for no others. -/
theorem forall₂_shows_iff (trees : List Tree) (shown : List Item) :
    List.Forall₂ Shows trees shown ↔ shown = items trees := by
  cases trees with
  | nil => rw [List.forall₂_nil_left_iff, items]
  | cons tree trees =>
    rw [items, List.forall₂_cons_left_iff]
    constructor
    · rintro ⟨first, others, hfirst, hothers, rfl⟩
      rw [(shows_iff tree first).mp hfirst, (forall₂_shows_iff trees others).mp hothers]
    · rintro rfl
      exact ⟨_, _, (shows_iff tree _).mpr rfl, (forall₂_shows_iff trees _).mpr rfl, rfl⟩

end

/-- The item of a tree is read from the strings that start with the tree's encoding, and from no others. -/
theorem exists_decode? (tree : Tree) (hlong : tree.encode.length < 2 ^ 64) :
    ∃ shown, tree.Shows shown ∧ ∀ bs rest, decode? bs = some (shown, rest) ↔ bs = tree.encode ++ rest := by
  refine ⟨tree.item, (tree.shows_iff _).mpr rfl, fun bs rest => ?_⟩
  rw [← encode_item] at hlong ⊢
  exact decode?_eq_some_iff hlong

/-- Trees whose encodings start strings that agree stand for one item, and the rests agree. -/
theorem encode_append_inj {tree tree' : Tree} (hlong : tree.encode.length < 2 ^ 64) (hlong' : tree'.encode.length < 2 ^ 64)
    {rest rest' : Bytes} (h : tree.encode ++ rest = tree'.encode ++ rest') :
    (∀ shown, tree.Shows shown ↔ tree'.Shows shown) ∧ rest = rest' := by
  rw [← encode_item] at hlong hlong'
  rw [← encode_item, ← encode_item] at h
  obtain ⟨hitem, hrest⟩ := Item.encode_append_inj hlong hlong' h
  exact ⟨fun shown => by rw [shows_iff, shows_iff, hitem], hrest⟩

end Tree

/-! ## Filling a list -/

/-- A step in filling a list. -/
inductive Step where
  | uint64 (n : UInt64)
  | word (n : BitVec 256)
  | bytes (bs : Bytes)
  /-- One more item, which is encoded already. -/
  | raw (tree : Tree)
  /-- A new list, with the finished one as its only item. -/
  | wrap

namespace Step

/-- The list after a step. -/
def fill (fields : Fields) : Step → Fields
  | .uint64 n => fields.uint64 n
  | .word n => fields.word n
  | .bytes bs => fields.bytes bs
  | .raw tree => fields.raw tree.encode
  | .wrap => Fields.raw {} fields.finish

/-- The items of the list after a step. -/
def grow (trees : List Tree) : Step → List Tree
  | .uint64 n => trees ++ [.uint64 n]
  | .word n => trees ++ [.word n]
  | .bytes bs => trees ++ [.bytes bs]
  | .raw tree => trees ++ [tree]
  | .wrap => [.list trees]

/-- The list that steps fill, from an empty one. -/
def run (steps : List Step) : Fields := steps.foldl fill {}

/-- The items of the list that steps fill. -/
def contents (steps : List Step) : List Tree := steps.foldl grow []

/-- A step keeps the list at the encodings of its items. -/
theorem encoded_fill {fields : Fields} {trees : List Tree} (h : fields.encoded = Tree.encodeAll trees) (step : Step) :
    (step.fill fields).encoded = Tree.encodeAll (step.grow trees) := by
  -- All steps but the last add the encoding of one tree at the end.
  have hadd : ∀ tree : Tree, (fields.raw tree.encode).encoded = Tree.encodeAll (trees ++ [tree]) := by
    intro tree
    rw [Tree.encodeAll_eq_map, List.map_append, ← Tree.encodeAll_eq_map, ← h]
    rfl
  cases step with
  | uint64 n => exact hadd (.uint64 n)
  | word n => exact hadd (.word n)
  | bytes bs => exact hadd (.bytes bs)
  | raw tree => exact hadd tree
  | wrap =>
    rw [fill, grow, Tree.encodeAll, Tree.encode, ← h]
    rfl

/-- Steps fill a list with the encodings of its items. -/
theorem encoded_run (steps : List Step) : (run steps).encoded = Tree.encodeAll (contents steps) := by
  induction steps using List.reverseRecOn with
  | nil => rfl
  | append_singleton steps step ih =>
    rw [run, contents, List.foldl_append, List.foldl_append]
    exact encoded_fill ih step

theorem length_run (steps : List Step) : (run steps).length = (contents steps).length := by
  rw [Fields.length, encoded_run, Tree.encodeAll_eq_map, List.length_map]

theorem finish_run (steps : List Step) : (run steps).finish = (Tree.list (contents steps)).encode := by
  rw [Fields.finish, encoded_run, Tree.encode]

end Step

/-- Encodings are read back, and nothing else is. No first byte of a header is reduced; a list counts its items; the item that a
tree stands for, or a list that steps have filled, is read from the strings that start with its encoding and from no others,
and leaves what follows; and no encoding starts another one, unless they are encodings of one item. -/
theorem tree_read_back (tree tree' : Tree) (steps : List Step) (htree : tree.encode.length < 2 ^ 64)
    (htree' : tree'.encode.length < 2 ^ 64) (hsteps : (Step.run steps).finish.length < 2 ^ 64) :
    (∀ bs, isBare bs = false → (encodeBytes bs).head?.map UInt8.toNat = some (leadNumber 0x80 0xb7 bs.length)) ∧
    (∀ encoded, (encodeList encoded).head?.map UInt8.toNat = some (leadNumber 0xc0 0xf7 encoded.flatten.length)) ∧
    (Step.run steps).length = (Step.contents steps).length ∧
    (∃ shown, tree.Shows shown ∧ ∀ bs rest, decode? bs = some (shown, rest) ↔ bs = tree.encode ++ rest) ∧
    (∃ shown, List.Forall₂ Tree.Shows (Step.contents steps) shown ∧
      ∀ bs rest, decode? bs = some (.list shown, rest) ↔ bs = (Step.run steps).finish ++ rest) ∧
    (∀ rest rest', tree.encode ++ rest = tree'.encode ++ rest' →
      (∀ shown, tree.Shows shown ↔ tree'.Shows shown) ∧ rest = rest') := by
  refine ⟨fun bs hbare => ?_, fun encoded => toNat_head?_withHeader (by decide) (by decide) _, Step.length_run steps,
    tree.exists_decode? htree, ?_, fun rest rest' => Tree.encode_append_inj htree htree'⟩
  · rw [encodeBytes_of_isBare_eq_false hbare]
    exact toNat_head?_withHeader (by decide) (by decide) bs
  · rw [Step.finish_run] at hsteps ⊢
    obtain ⟨shown, hshown, hread⟩ := Tree.exists_decode? _ hsteps
    cases hshown with
    | list hall => exact ⟨_, hall, hread⟩

/-- A list with a number of two bytes, a byte that needs a header, and an empty list. -/
def sampleTree : Tree := .list [.uint64 1024, .bytes [0x80], .list []]

/-- A list with a long payload, as the first item of another one. -/
def sampleSteps : List Step := [.uint64 9, .bytes (List.replicate 60 0xab), .wrap, .raw sampleTree, .word 0]

/-- The samples are read back from the front of a longer string, and the list counts its items. -/
theorem tree_read_back_sample :
    (Step.run sampleSteps).length = 3 ∧ (∃ shown, sampleTree.Shows shown ∧
      decode? (sampleTree.encode ++ [0xff]) = some (shown, [0xff])) ∧
    ∃ shown, List.Forall₂ Tree.Shows (Step.contents sampleSteps) shown ∧
      decode? ((Step.run sampleSteps).finish ++ [0xff]) = some (.list shown, [0xff]) := by
  obtain ⟨-, -, hlength, ⟨item, hitem, hread⟩, ⟨items, hitems, hreads⟩, -⟩ :=
    tree_read_back sampleTree (.word 5) sampleSteps (by decide) (by decide) (by decide)
  exact ⟨hlength, ⟨item, hitem, (hread _ _).mpr rfl⟩, items, hitems, (hreads _ _).mpr rfl⟩

end OfflineSigner.Rlp
