import Mathlib.Data.List.Perm.Basic
import MetaDedup.Server.ShareOperations

/-! # The link of buffer nodes

Both cores keep one buffer node per user in a linked list. A call walks the list
once: it looks for the node of its user and flushes and frees the nodes of other
users that have not been used for a while. The node type and the flush differ
between the cores, so both are parameters. -/

namespace MetaDedup.Server

open Foundation

variable {Node : Type u} {σ : Type v}

structure LinkedNode (Node : Type u) where
  before : List Node
  target : Node
  after : List Node

namespace LinkedNode

def link (node : LinkedNode Node) : List Node :=
  node.before ++ node.target :: node.after

def others (node : LinkedNode Node) : List Node := node.before ++ node.after

def setTarget (node : LinkedNode Node) (target : Node) : LinkedNode Node :=
  { node with target := target }

theorem link_perm (node : LinkedNode Node) :
    node.link.Perm (node.target :: node.others) :=
  List.perm_middle

@[simp] theorem setTarget_others (node : LinkedNode Node) (target : Node) :
    (node.setTarget target).others = node.others := rfl

@[simp] theorem setTarget_target (node : LinkedNode Node) (target : Node) :
    (node.setTarget target).target = target := rfl

def atEnd (nodes : List Node) (node : Node) : LinkedNode Node := ⟨nodes, node, []⟩

@[simp] theorem atEnd_others (nodes : List Node) (node : Node) :
    (atEnd nodes node).others = nodes :=
  List.append_nil nodes

end LinkedNode

/-- The walk through the link: the nodes that `expires` selects are flushed and
freed. -/
def expireNodes (flush : σ → Node → σ) (expires : Node → Bool) :
    σ → List Node → σ × List Node
  | state, [] => (state, [])
  | state, node :: rest =>
      if expires node then expireNodes flush expires (flush state node) rest
      else
        let walked := expireNodes flush expires state rest
        (walked.1, node :: walked.2)

/-- The node of a user; with several, the last one of the link wins. -/
def findUserNode (userID : Node → Int) (user : Int) : List Node → Option (LinkedNode Node)
  | [] => none
  | node :: rest =>
      match findUserNode userID user rest with
      | some found => some { found with before := node :: found.before }
      | none => if userID node = user then some ⟨[], node, rest⟩ else none

theorem expireNodes_nodes (flush : σ → Node → σ) (expires : Node → Bool) (state : σ)
    (nodes : List Node) :
    (expireNodes flush expires state nodes).2 = nodes.filter fun node => !expires node := by
  induction nodes generalizing state with
  | nil => rfl
  | cons node rest induction =>
      rw [expireNodes]
      by_cases expired : expires node
      · simp [expired, induction]
      · simp [expired, induction]

variable {expires : Node → Bool}

theorem expireNodes_of_none (flush : σ → Node → σ) (state : σ)
    {nodes : List Node} (none : ∀ node ∈ nodes, expires node = false) :
    expireNodes flush expires state nodes = (state, nodes) := by
  induction nodes with
  | nil => rfl
  | cons node rest induction =>
      rcases List.forall_mem_cons.mp none with ⟨first, others⟩
      rw [expireNodes, first, induction others]
      rfl

def WalkMeets (flush : σ → Node → σ) (expires : Node → Bool) (guard : σ → Node → Prop) :
    σ → List Node → Prop
  | _, [] => True
  | state, node :: rest =>
      if expires node then
        guard state node ∧ WalkMeets flush expires guard (flush state node) rest
      else WalkMeets flush expires guard state rest

instance decidableWalkMeets (flush : σ → Node → σ) (expires : Node → Bool)
    (guard : σ → Node → Prop) [∀ state node, Decidable (guard state node)] :
    (state : σ) → (nodes : List Node) → Decidable (WalkMeets flush expires guard state nodes)
  | _, [] => .isTrue trivial
  | state, node :: rest =>
      have := decidableWalkMeets flush expires guard (flush state node) rest
      have := decidableWalkMeets flush expires guard state rest
      inferInstanceAs (Decidable (if expires node then
        guard state node ∧ WalkMeets flush expires guard (flush state node) rest
      else WalkMeets flush expires guard state rest))

theorem walkMeets_of_forall (flush : σ → Node → σ) (expires : Node → Bool)
    {guard : σ → Node → Prop} (all : ∀ state node, guard state node) (state : σ)
    (nodes : List Node) : WalkMeets flush expires guard state nodes := by
  induction nodes generalizing state with
  | nil => trivial
  | cons node rest induction =>
      rw [WalkMeets]
      split
      · exact ⟨all state node, induction _⟩
      · exact induction _

theorem walkMeets_of_none (flush : σ → Node → σ)
    (guard : σ → Node → Prop) (state : σ) {nodes : List Node}
    (none : ∀ node ∈ nodes, expires node = false) :
    WalkMeets flush expires guard state nodes := by
  induction nodes with
  | nil => trivial
  | cons node rest induction =>
      rcases List.forall_mem_cons.mp none with ⟨first, others⟩
      rw [WalkMeets, first]
      exact induction others

theorem expireNodes_invariant (flush : σ → Node → σ) (expires : Node → Bool)
    (guard : σ → Node → Prop) (invariant : σ → List Node → Prop)
    (perm : ∀ state nodes reordered, nodes.Perm reordered → invariant state nodes →
      invariant state reordered)
    (free : ∀ state node rest, expires node → guard state node →
      invariant state (node :: rest) → invariant (flush state node) rest)
    (state : σ) (nodes : List Node) (meets : WalkMeets flush expires guard state nodes)
    (initial : invariant state nodes) :
    invariant (expireNodes flush expires state nodes).1
      (expireNodes flush expires state nodes).2 := by
  induction nodes generalizing state invariant with
  | nil => exact initial
  | cons node rest induction =>
      rw [expireNodes]
      rw [WalkMeets] at meets
      by_cases expired : expires node
      · rw [if_pos expired] at meets ⊢
        exact induction invariant perm free _ meets.2
          (free state node rest expired meets.1 initial)
      · rw [if_neg expired] at meets ⊢
        refine induction (fun state nodes => invariant state (node :: nodes)) ?_ ?_ state
          meets initial
        · intro state nodes reordered permuted holds
          exact perm _ _ _ (permuted.cons node) holds
        · intro state other rest otherExpired otherMeets holds
          exact free _ _ _ otherExpired otherMeets (perm _ _ _ (.swap other node rest) holds)

theorem findUserNode_some {userID : Node → Int} {user : Int} {nodes : List Node}
    {found : LinkedNode Node} (located : findUserNode userID user nodes = some found) :
    found.link = nodes ∧ userID found.target = user := by
  induction nodes generalizing found with
  | nil => simp [findUserNode] at located
  | cons node rest induction =>
      rw [findUserNode] at located
      cases later : findUserNode userID user rest with
      | some place =>
          rcases induction later with ⟨whole, own⟩
          simp only [later, Option.some.injEq] at located
          subst located
          exact ⟨congrArg (node :: ·) whole, own⟩
      | none =>
          simp only [later, Option.ite_none_right_eq_some, Option.some.injEq] at located
          rcases located with ⟨own, equal⟩
          subst equal
          exact ⟨rfl, own⟩

theorem findUserNode_none {userID : Node → Int} {user : Int} {nodes : List Node}
    (missing : findUserNode userID user nodes = none) :
    ∀ node ∈ nodes, userID node ≠ user := by
  induction nodes with
  | nil => simp
  | cons node rest induction =>
      rw [findUserNode] at missing
      cases later : findUserNode userID user rest with
      | some place => simp [later] at missing
      | none =>
          simp only [later, ite_eq_right_iff, reduceCtorEq, imp_false] at missing
          exact List.forall_mem_cons.mpr ⟨missing, induction later⟩

/-! ## Calls -/

/-- A call of one of the two stages. The shares of a package lie in
`shareDataBuffer` one after another. The clock decides which nodes of other users
have expired when the second stage walks through the link, so `expired` may be any
set of nodes. -/
inductive StageCall (Node : Type u)
  | firstStage (userID : Int) (package : List FileShareMD)
  | secondStage (userID : Int) (package : List FileShareMD)
      (intraUserDupStatList : Nat → Bool) (shareDataBuffer : Buffer Byte)
      (expired : Node → Bool)

namespace StageCall

def package : StageCall Node → List FileShareMD
  | .firstStage _ package => package
  | .secondStage _ package _ _ _ => package

def Sized (call : StageCall Node) : Prop :=
  ∀ file ∈ call.package, ∀ entry ∈ file.entries, entry.Sized

instance (call : StageCall Node) : Decidable call.Sized :=
  inferInstanceAs (Decidable (∀ file ∈ call.package, ∀ entry ∈ file.entries, entry.Sized))

end StageCall

end MetaDedup.Server
