import OfflineSigner.Proofs.Curve.Key
import OfflineSigner.Proofs.ExtendedKey

/-!
# Public nodes mirror the nodes with a secret key

Statements about `ExtendedKey.neuter`: below a keyed node, without its secret key, the children that are not hardened are those
of the node itself without their secret keys, and where there is no such child the faults are of one kind (`neuter_child`). This
holds along a whole path (`neuter_foldlM`), and a path with a hardened component leads nowhere from a public node
(`exists_failsAt`). Main statement: `neuter_mirrors`, for the nodes that a seed leads to.
-/

namespace OfflineSigner.ExtendedKey

open Curve

/-- The fault of a public node where a node with a secret key has another. -/
def Error.ofPublic : Error → Error
  | .zeroSecret number => .infinitePublic number
  | e => e

theorem Error.code_ofPublic (e : Error) : e.ofPublic.code = e.code := by cases e <;> rfl

/-- The answer of a public node where a node with a secret key has another. -/
def mirror (answer : Except Error ExtendedKey) : Except Error ExtendedKey := (answer.map neuter).mapError Error.ofPublic

@[simp] theorem mirror_ok (node : ExtendedKey) : mirror (.ok node) = .ok node.neuter := rfl

@[simp] theorem mirror_error (e : Error) : mirror (.error e) = .error e.ofPublic := rfl

@[simp] theorem neuter_secret (node : ExtendedKey) : node.neuter.secret = none := rfl

@[simp] theorem neuter_publicKey (node : ExtendedKey) : node.neuter.publicKey = node.publicKey := rfl

@[simp] theorem neuter_depth (node : ExtendedKey) : node.neuter.depth = node.depth := rfl

@[simp] theorem neuter_childTweak? (node : ExtendedKey) (message : Bytes) :
    node.neuter.childTweak? message = node.childTweak? message := rfl

/-! ## Children that are not hardened -/

/-- The message of a child that is not hardened has the public key. -/
theorem childMessage_of_normal (node : ExtendedKey) {number : ChildNumber} (h : number.hardened = false) :
    node.childMessage number = .ok (node.publicKey.compressed.toList ++ Bytes.ofNatBE 4 number.serial.toNat) := by
  simp [childMessage, h]

/-- The keys of a child of a public node. -/
theorem childKeys_of_public {node : ExtendedKey} (hpublic : node.secret = none) (number : ChildNumber) (tweak : Scalar) :
    node.childKeys number tweak =
      (node.publicKey.tweak? tweak).elim (.error (.infinitePublic number)) fun K => .ok (none, K) := by
  unfold childKeys
  rw [hpublic]
  dsimp only
  cases node.publicKey.tweak? tweak <;> rfl

/-- A child that is not hardened is the same without the secret keys. -/
theorem Keyed.neuter_child {node : ExtendedKey} {d : SecretKey} (hkeyed : Keyed node d) {number : ChildNumber}
    (h : number.hardened = false) : node.neuter.child number = mirror (node.child number) := by
  by_cases hdepth : node.depth = 255
  · rw [child_of_depth_eq hdepth, child_of_depth_eq (node.neuter_depth.trans hdepth)]
    rfl
  · have hmessage := node.childMessage_of_normal h
    have hmessage' := node.neuter.childMessage_of_normal h
    have hdepth' : node.neuter.depth ≠ 255 := hdepth
    -- Both nodes hash one message under one chain code, so there is one tweak.
    rw [neuter_publicKey] at hmessage'
    rw [child_of_childMessage hdepth hmessage, child_of_childMessage hdepth' hmessage', neuter_childTweak?]
    cases node.childTweak? _ with
    | none => rfl
    | some tweak =>
      rw [Option.elim_some, Option.elim_some, hkeyed.childKeys, childKeys_of_public node.neuter_secret, neuter_publicKey,
        hkeyed.publicKey, d.tweak?_publicKey]
      cases d.tweak? tweak <;> rfl

/-- Components that are not hardened lead to the same node without the secret keys. -/
theorem Keyed.neuter_foldlM {node : ExtendedKey} {d : SecretKey} (hkeyed : Keyed node d) {numbers : List ChildNumber}
    (h : ∀ number ∈ numbers, number.hardened = false) :
    numbers.foldlM ExtendedKey.child node.neuter = mirror (numbers.foldlM ExtendedKey.child node) := by
  induction numbers generalizing node d with
  | nil => rfl
  | cons number numbers ih =>
    rw [List.foldlM_cons, List.foldlM_cons, hkeyed.neuter_child (h number List.mem_cons_self)]
    cases hchild : node.child number with
    | error e => rfl
    | ok node' =>
      obtain ⟨d', hkeyed'⟩ := hkeyed.child hchild
      exact ih hkeyed' fun other hother => h other (List.mem_cons_of_mem number hother)

/-! ## Hardened children -/

/-- A public node has no hardened child, and reports the path. -/
theorem child_of_hardened {node : ExtendedKey} (hpublic : node.secret = none) {number : ChildNumber}
    (h : number.hardened = true) : ∃ e, node.child number = .error e ∧ e.code = .invalidDerivationPath := by
  by_cases hdepth : node.depth = 255
  · exact ⟨.depth, child_of_depth_eq hdepth, rfl⟩
  · have hmessage : node.childMessage number = .error (.hardenedOfPublic number) := by simp [childMessage, h, hpublic]
    exact ⟨_, child_of_childMessage_eq_error hdepth hmessage, rfl⟩

/-- The children of a public node are public, and what is reported where there is none is the path or an invalid key. -/
theorem child_of_public {node : ExtendedKey} (hpublic : node.secret = none) {number : ChildNumber}
    (h : number.hardened = false) :
    (∃ e, node.child number = .error e ∧ (e.code = .invalidDerivationPath ∨ e.code = .invalidPrivateKeyFound)) ∨
      ∃ node', node.child number = .ok node' ∧ node'.secret = none := by
  by_cases hdepth : node.depth = 255
  · exact Or.inl ⟨.depth, child_of_depth_eq hdepth, Or.inl rfl⟩
  · rw [child_of_childMessage hdepth (node.childMessage_of_normal h)]
    cases node.childTweak? _ with
    | none => exact Or.inl ⟨_, rfl, Or.inr rfl⟩
    | some tweak =>
      rw [Option.elim_some, childKeys_of_public hpublic]
      cases node.publicKey.tweak? tweak with
      | none => exact Or.inl ⟨_, rfl, Or.inr rfl⟩
      | some K => exact Or.inr ⟨_, rfl, rfl⟩

/-- Whether a descent from a node goes along `before` and then fails at the component `number`, with the fault `e`. -/
def FailsAt (node : ExtendedKey) (before : List ChildNumber) (number : ChildNumber) (e : Error) : Prop :=
  ∃ node', before.foldlM ExtendedKey.child node = .ok node' ∧ node'.child number = .error e

theorem FailsAt.cons {node node' : ExtendedKey} {first number : ChildNumber} {before : List ChildNumber} {e : Error}
    (hchild : node.child first = .ok node') (h : FailsAt node' before number e) : FailsAt node (first :: before) number e := by
  obtain ⟨last, hlast, he⟩ := h
  exact ⟨last, by rw [List.foldlM_cons, hchild, ok_bind, hlast], he⟩

/-- A descent that fails at a component fails with the fault of that component, whatever follows. -/
theorem FailsAt.foldlM_eq {node : ExtendedKey} {before : List ChildNumber} {number : ChildNumber} {e : Error}
    (h : FailsAt node before number e) (after : List ChildNumber) :
    (before ++ number :: after).foldlM ExtendedKey.child node = .error e := by
  obtain ⟨last, hlast, he⟩ := h
  rw [List.foldlM_append, hlast, ok_bind, List.foldlM_cons, he, error_bind]

/-- Components among which one is hardened lead nowhere from a public node. What is reported is the path, or an invalid key at
a component in front of all hardened ones. -/
theorem exists_failsAt {node : ExtendedKey} (hpublic : node.secret = none) {numbers : List ChildNumber}
    (h : ∃ number ∈ numbers, number.hardened = true) :
    ∃ before number after e, numbers = before ++ number :: after ∧ FailsAt node before number e ∧
      (∀ other ∈ before, other.hardened = false) ∧
      (e.code = .invalidDerivationPath ∨
        e.code = .invalidPrivateKeyFound ∧ number.hardened = false ∧ ∃ other ∈ after, other.hardened = true) := by
  induction numbers generalizing node with
  | nil =>
    obtain ⟨number, hmem, -⟩ := h
    cases hmem
  | cons number numbers ih =>
    by_cases hnumber : number.hardened = true
    · obtain ⟨e, he, hcode⟩ := child_of_hardened hpublic hnumber
      exact ⟨[], number, numbers, e, rfl, ⟨node, rfl, he⟩, nofun, Or.inl hcode⟩
    · have hnormal : number.hardened = false := Bool.eq_false_iff.mpr hnumber
      have hrest : ∃ other ∈ numbers, other.hardened = true := by
        obtain ⟨other, hmem, hother⟩ := h
        rcases List.mem_cons.mp hmem with rfl | hmem
        · exact absurd hother hnumber
        · exact ⟨other, hmem, hother⟩
      rcases child_of_public hpublic hnormal with ⟨e, he, hcode⟩ | ⟨node', hchild, hpublic'⟩
      · exact ⟨[], number, numbers, e, rfl, ⟨node, rfl, he⟩, nofun, hcode.imp_right fun hkey => ⟨hkey, hnormal, hrest⟩⟩
      · obtain ⟨before, failed, after, e, rfl, hfails, hbefore, hcode⟩ := ih hpublic' hrest
        refine ⟨number :: before, failed, after, e, rfl, hfails.cons hchild, ?_, hcode⟩
        intro other hother
        rcases List.mem_cons.mp hother with rfl | hother
        · exact hnormal
        · exact hbefore other hother

/-! ## Nodes of a seed -/

/-- The nodes that a seed leads to, by children and by paths. -/
inductive Seeded : ExtendedKey → Prop
  | ofSeed {seed : Bytes} {node : ExtendedKey} (h : ofSeed seed = .ok node) : Seeded node
  | child {node node' : ExtendedKey} {number : ChildNumber} (hseeded : Seeded node) (h : node.child number = .ok node') :
    Seeded node'
  | descend {node node' : ExtendedKey} {path : DerivationPath} (hseeded : Seeded node) (h : node.descend path = .ok node') :
    Seeded node'

theorem Seeded.keyed {node : ExtendedKey} (h : Seeded node) : ∃ d, Keyed node d := by
  induction h with
  | ofSeed h => exact keyed_of_ofSeed h
  | child _ h ih =>
    obtain ⟨d, hkeyed⟩ := ih
    exact hkeyed.child h
  | descend _ h ih =>
    obtain ⟨d, hkeyed⟩ := ih
    exact hkeyed.descend h

/-- Public nodes mirror the nodes of a seed. Along a path without hardened components the node without its secret key leads
somewhere exactly when the node itself does, to the same node without its secret key, and otherwise both report one kind of
failure. Along a path with a hardened component it leads nowhere, and reports the path, or an invalid key at a component in
front of all hardened ones. -/
theorem neuter_mirrors {node : ExtendedKey} (hseeded : Seeded node) (path : DerivationPath) :
    ((∀ number ∈ path.components, number.hardened = false) →
      ((∃ node', node.neuter.descend path = .ok node') ↔ ∃ node', node.descend path = .ok node') ∧
      (∀ node', node.descend path = .ok node' → node.neuter.descend path = .ok node'.neuter) ∧
      ∀ e e', node.descend path = .error e → node.neuter.descend path = .error e' → e'.code = e.code) ∧
    ((∃ number ∈ path.components, number.hardened = true) →
      ∃ before number after e, path.components = before ++ number :: after ∧ node.neuter.descend path = .error e ∧
        FailsAt node.neuter before number e ∧ (∀ other ∈ before, other.hardened = false) ∧
        (e.code = .invalidDerivationPath ∨
          e.code = .invalidPrivateKeyFound ∧ number.hardened = false ∧ ∃ other ∈ after, other.hardened = true)) := by
  constructor
  · intro hnormal
    obtain ⟨d, hkeyed⟩ := hseeded.keyed
    have hmirror : node.neuter.descend path = mirror (node.descend path) := hkeyed.neuter_foldlM hnormal
    rw [hmirror]
    cases node.descend path with
    | error e =>
      refine ⟨by simp, nofun, ?_⟩
      intro e₁ e₂ h₁ h₂
      cases h₁
      cases h₂
      exact e.code_ofPublic
    | ok node' =>
      refine ⟨by simp, ?_, nofun⟩
      intro node₁ h₁
      cases h₁
      rfl
  · intro hhardened
    obtain ⟨before, number, after, e, hcomponents, hfails, hbefore, hcode⟩ := exists_failsAt node.neuter_secret hhardened
    refine ⟨before, number, after, e, hcomponents, ?_, hfails, hbefore, hcode⟩
    rw [ExtendedKey.descend, hcomponents]
    exact hfails.foldlM_eq after

/-- The public master node of the seed leads where the master node leads along the one path, and nowhere along the other. -/
theorem neuter_mirrors_bip32 :
    ∃ master node e, ofSeed bip32Seed = .ok master ∧ master.descend normalPath = .ok node ∧
      master.neuter.descend normalPath = .ok node.neuter ∧ master.neuter.descend mixedPath = .error e ∧
      (e.code = .invalidDerivationPath ∨ e.code = .invalidPrivateKeyFound) := by
  obtain ⟨master, node, hmaster, hnode⟩ := exists_descend_bip32
  obtain ⟨hnormal, -⟩ := neuter_mirrors (.ofSeed hmaster) normalPath
  obtain ⟨-, hmixed⟩ := neuter_mirrors (.ofSeed hmaster) mixedPath
  obtain ⟨-, hmirror, -⟩ := hnormal (by decide)
  obtain ⟨before, number, after, e, -, he, -, -, hcode⟩ := hmixed (by decide)
  exact ⟨master, node, e, hmaster, hnode, hmirror node hnode, he, hcode.imp_right And.left⟩

end OfflineSigner.ExtendedKey
