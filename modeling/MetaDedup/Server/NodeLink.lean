import MetaDedup.Foundation.LinkedCells
import MetaDedup.Server.BufferLink
import Mathlib.Data.Rat.Defs

/-! # The pointers of the buffer node link

Both cores keep the buffer nodes of the users in a list linked through `next`, with
pointers to its first and its last node. `findOrCreateBufferNode_` takes out the nodes that
have expired and appends a node, `cleanupUserBufferNode` takes out the node of one user.
The two functions are the same in both cores. Reading through a null pointer, or through a
pointer to a node that has been freed, is a fault. -/

namespace MetaDedup.Server

open Foundation Foundation.Heap Relation

/-- What of a buffer node the functions on the link look at. -/
structure BufferNode where
  userID : Int
  lastUseTime : Rat

namespace NodeLink

/-- How a call ends other than by returning: it reads where it must not, or it goes on
after the given number of passes. -/
inductive Fault
  | nullPointer
  | freedPointer
  | running
  deriving DecidableEq

abbrev Link := LinkedList BufferNode

def load (heap : Heap BufferNode) (address : Nat) : Except Fault (Cell BufferNode) :=
  match heap address with
  | none => .error .freedPointer
  | some node => .ok node

def deref : Option Nat → Except Fault Nat
  | none => .error .nullPointer
  | some address => .ok address

/-! ## `findOrCreateBufferNode_` -/

def removeExpired (link : Link) (curr : Nat) (node : Cell BufferNode) (pre : Option Nat) :
    Except Fault (Link × Option Nat × Option Nat) :=
  if some curr = link.head then
    if link.head = link.tail then .ok (⟨link.heap.free curr, none, none⟩, node.next, none)
    else .ok (⟨link.heap.free curr, node.next, link.tail⟩, node.next, none)
  else do
    let address ← deref pre
    let previous ← load link.heap address
    let heap := (link.heap.store address { previous with next := node.next }).free curr
    if some curr = link.tail then return (⟨heap, link.head, pre⟩, none, pre)
    else
      let previous ← load heap address
      return (⟨heap, link.head, link.tail⟩, previous.next, pre)

section Find

variable (userID : Int) (currTime : Rat) (expired : Nat → Bool)

/-- The loop over the link. Which nodes of other users have expired depends on the clock;
a flush that fails is only reported. -/
def walk : Nat → Link → Option Nat → Option Nat → Option Nat → Except Fault (Link × Option Nat)
  | 0, _, _, _, _ => .error .running
  | _ + 1, link, none, _, target => .ok (link, target)
  | fuel + 1, link, some curr, pre, target => do
      let node ← load link.heap curr
      if node.value.userID = userID then
        let touched := { node with value := { node.value with lastUseTime := currTime } }
        walk fuel { link with heap := link.heap.store curr touched } node.next (some curr)
          (some curr)
      else if expired curr then
        let (link, next, pre) ← removeExpired link curr node pre
        walk fuel link next pre target
      else walk fuel link node.next (some curr) target

/-- Link the node that `malloc` has returned at `address` in the end of the pool. -/
def linkNode (link : Link) (address : Nat) : Except Fault Link :=
  let heap := link.heap.store address ⟨⟨userID, currTime⟩, none⟩
  match link.head with
  | none => .ok ⟨heap, some address, some address⟩
  | some _ => do
      let last ← deref link.tail
      let node ← load heap last
      return ⟨heap.store last { node with next := some address }, link.head, some address⟩

def findOrCreateBufferNode (fuel : Nat) (link : Link) (address : Nat) : Except Fault Link := do
  let (link, target) ← walk userID currTime expired fuel link link.head none none
  match target with
  | some _ => return link
  | none => linkNode userID currTime link address

end Find

/-! ## `cleanupUserBufferNode` -/

section Cleanup

variable (userID : Int)

def findNode : Nat → Link → Option Nat → Option Nat → Except Fault (Option Nat × Option Nat)
  | 0, _, _, _ => .error .running
  | _ + 1, _, none, pre => .ok (none, pre)
  | fuel + 1, link, some curr, pre => do
      let node ← load link.heap curr
      if node.value.userID ≠ userID then findNode fuel link node.next (some curr)
      else return (some curr, pre)

def removeTarget (link : Link) (target : Nat) (pre : Option Nat) : Except Fault Link := do
  let node ← load link.heap target
  if some target = link.head then
    let moved : Link := ⟨link.heap.free target, node.next, link.tail⟩
    if moved.head = moved.tail then return { moved with tail := none } else return moved
  else
    let tail := if some target = link.tail then pre else link.tail
    let address ← deref pre
    let previous ← load link.heap address
    return ⟨(link.heap.store address { previous with next := node.next }).free target,
      link.head, tail⟩

/-- A flush that fails leaves the link as it is. Without a node the function reads the user
of a null pointer for its message. -/
def cleanupUserBufferNode (flushed : Bool) (fuel : Nat) (link : Link) : Except Fault Link := do
  let (target, pre) ← findNode userID fuel link link.head none
  let target ← deref target
  if flushed then removeTarget link target pre else return link

end Cleanup

inductive Call
  | findOrCreateBufferNode (userID : Int) (currTime : Rat) (expired : Nat → Bool)
      (address : Nat)
  | cleanupUserBufferNode (userID : Int) (flushed : Bool)

def perform (fuel : Nat) (link : Link) : Call → Except Fault Link
  | .findOrCreateBufferNode userID currTime expired address =>
      findOrCreateBufferNode userID currTime expired fuel link address
  | .cleanupUserBufferNode userID flushed => cleanupUserBufferNode userID flushed fuel link

/-- A call returns and leaves the link `next`, however many more passes are allowed. -/
def Returns (link : Link) (call : Call) (next : Link) : Prop :=
  ∃ passes, ∀ fuel, passes < fuel → perform fuel link call = .ok next

/-! ## The link as a list -/

abbrev Item := Nat × BufferNode

def expires (userID : Int) (expired : Nat → Bool) (item : Item) : Bool :=
  item.2.userID != userID && expired item.1

def touch (userID : Int) (currTime : Rat) (item : Item) : Item :=
  if item.2.userID = userID then (item.1, { item.2 with lastUseTime := currTime }) else item

def searched (userID : Int) (currTime : Rat) (expired : Nat → Bool) (items : List Item) :
    List Item :=
  (expireNodes (fun _ _ => ()) (expires userID expired) () items).2.map
    (touch userID currTime)

/-- The link after a call: the previous nodes without those that are taken out, in their
order, and at most one new node, of the calling user and at the end. -/
def Call.after (items : List Item) : Call → List Item
  | .findOrCreateBufferNode userID currTime expired address =>
      let kept := searched userID currTime expired items
      if ∃ item ∈ items, item.2.userID = userID then kept
      else kept ++ [(address, ⟨userID, currTime⟩)]
  | .cleanupUserBufferNode userID flushed =>
      if flushed then items.eraseP (fun item => item.2.userID = userID) else items

/-- `malloc` returns an address that is not in use, and a clean-up is for a user with a
node. -/
def Call.Admitted (items : List Item) : Call → Prop
  | .findOrCreateBufferNode userID currTime expired address =>
      address ∉ (searched userID currTime expired items).map Prod.fst
  | .cleanupUserBufferNode userID _ => ∃ item ∈ items, item.2.userID = userID

/-- A clean-up takes the first node out only if at least two others stay. -/
def Call.Safe (items : List Item) : Call → Prop
  | .findOrCreateBufferNode _ _ _ _ => True
  | .cleanupUserBufferNode userID flushed =>
      flushed = true → ∀ item rest, items = item :: rest → item.2.userID = userID →
        2 ≤ rest.length

/-! ## The walk -/

section Walk

variable {userID : Int} {currTime : Rat} {expired : Nat → Bool} {link : Link}
variable {before after rest : List Item} {item : Item}

theorem load_item (links : link.Links (before ++ item :: after)) :
    load link.heap item.1 = .ok ⟨item.2, first after none⟩ := by
  rw [load, links.cell]

def ownNode (userID : Int) (target : Option Nat) (items : List Item) : Option Nat :=
  items.foldl (fun target item => if item.2.userID = userID then some item.1 else target) target

private theorem ownNode_isSome_iff (target : Option Nat) (items : List Item) :
    (ownNode userID target items).isSome = true ↔
      target.isSome = true ∨ ∃ item ∈ items, item.2.userID = userID := by
  induction items generalizing target with
  | nil => simp [ownNode]
  | cons item rest induction =>
      refine (induction _).trans ?_
      by_cases own : item.2.userID = userID
      · simp [own]
      · simp [own]

private theorem searched_cons_own (own : item.2.userID = userID) :
    searched userID currTime expired (item :: rest) =
      (item.1, ⟨item.2.userID, currTime⟩) :: searched userID currTime expired rest := by
  simp [searched, expireNodes_nodes, expires, touch, own]

private theorem searched_cons_expired (other : item.2.userID ≠ userID)
    (late : expired item.1 = true) :
    searched userID currTime expired (item :: rest) = searched userID currTime expired rest := by
  simp [searched, expireNodes_nodes, expires, other, late]

private theorem searched_cons_kept (other : item.2.userID ≠ userID)
    (recent : ¬expired item.1 = true) :
    searched userID currTime expired (item :: rest) =
      item :: searched userID currTime expired rest := by
  simp [searched, expireNodes_nodes, expires, touch, other, recent]

private theorem removeExpired_head (links : link.Links (item :: after)) (pre : Option Nat) :
    ∃ next, removeExpired link item.1 ⟨item.2, first after none⟩ pre =
        .ok (next, first after none, none) ∧ next.Links after := by
  have whole : link.Links ([] ++ item :: after) := links
  have isHead := whole.isHead_iff.mpr rfl
  rw [removeExpired, if_pos isHead]
  by_cases last : after = []
  · have isTail := whole.isTail_iff.mpr last
    rw [if_pos (isHead.symm.trans isTail)]
    subst last
    exact ⟨_, rfl, links.removeHead rfl⟩
  · have notTail := mt whole.isTail_iff.mp last
    rw [if_neg fun same => notTail (isHead.trans same)]
    exact ⟨_, rfl, links.removeHead (whole.tail_of_ne_nil last)⟩

private theorem removeExpired_after {previous : Item}
    (links : link.Links (before ++ previous :: item :: after)) :
    ∃ next, removeExpired link item.1 ⟨item.2, first after none⟩ (some previous.1) =
        .ok (next, first after none, some previous.1) ∧
      next.Links (before ++ previous :: after) := by
  have split : before ++ previous :: item :: after = (before ++ [previous]) ++ item :: after := by
    simp
  have whole : link.Links ((before ++ [previous]) ++ item :: after) := split ▸ links
  have notHead := mt whole.isHead_iff.mp (by simp)
  have read := load_item links
  rw [removeExpired, if_neg notHead, deref]
  simp only [Loop.ok_bind, read]
  by_cases last : after = []
  · rw [if_pos (whole.isTail_iff.mpr last)]
    subst last
    exact ⟨_, rfl, links.removeAfter rfl⟩
  · have ends : link.tail = (previous :: after).getLast?.map Prod.fst := by
      rw [whole.tail_of_ne_nil last, List.getLast?_cons_of_ne_nil last]
    have removed := links.removeAfter ends
    rw [if_neg (mt whole.isTail_iff.mp last), load_item removed]
    exact ⟨_, rfl, removed⟩

private theorem removeExpired_links (links : link.Links (before ++ item :: after)) :
    ∃ next, removeExpired link item.1 ⟨item.2, first after none⟩
        (before.getLast?.map Prod.fst) =
        .ok (next, first after none, before.getLast?.map Prod.fst) ∧
      next.Links (before ++ after) := by
  rcases List.eq_nil_or_concat' before with none_before | ⟨earlier, previous, whole⟩
  · subst none_before
    exact removeExpired_head links _
  · subst whole
    rw [List.append_assoc] at links ⊢
    rw [List.getLast?_concat]
    exact removeExpired_after links

private theorem walk_pass (links : link.Links (before ++ item :: after)) (fuel : Nat)
    (pre target : Option Nat) :
    walk userID currTime expired (fuel + 1) link (some item.1) pre target =
      if item.2.userID = userID then
        walk userID currTime expired fuel
          { link with
            heap := link.heap.store item.1 ⟨⟨item.2.userID, currTime⟩, first after none⟩ }
          (first after none) (some item.1) (some item.1)
      else if expired item.1 then
        removeExpired link item.1 ⟨item.2, first after none⟩ pre >>= fun removed =>
          walk userID currTime expired fuel removed.1 removed.2.1 removed.2.2 target
      else walk userID currTime expired fuel link (first after none) (some item.1) target := by
  simp only [walk, load_item links, Loop.ok_bind]

private theorem walk_links (rest : List Item) {kept : List Item} (links : link.Links (kept ++ rest))
    (target : Option Nat) :
    ∃ next, (∀ fuel, rest.length < fuel →
        walk userID currTime expired fuel link (first rest none)
          (kept.getLast?.map Prod.fst) target = .ok (next, ownNode userID target rest)) ∧
      next.Links (kept ++ searched userID currTime expired rest) := by
  induction rest generalizing kept link target with
  | nil =>
      refine ⟨link, ?_, links⟩
      intro fuel enough
      rw [← Nat.succ_pred_eq_of_pos enough]
      rfl
  | cons item rest induction =>
      have step : ∀ node : Item, kept ++ node :: rest = (kept ++ [node]) ++ rest := by simp
      have place : ∀ node : Item, (kept ++ [node]).getLast?.map Prod.fst = some node.1 := by
        simp
      -- the rest of the loop has one pass less
      suffices more : ∃ next, (∀ fuel, rest.length < fuel →
          walk userID currTime expired (fuel + 1) link (some item.1)
            (kept.getLast?.map Prod.fst) target =
            .ok (next, ownNode userID target (item :: rest))) ∧
          next.Links (kept ++ searched userID currTime expired (item :: rest)) by
        rcases more with ⟨next, walked, reached⟩
        refine ⟨next, fun fuel enough => ?_, reached⟩
        rw [List.length_cons] at enough
        rw [← Nat.succ_pred_eq_of_pos (Nat.zero_lt_of_lt enough)]
        exact walked _ (by rw [Nat.pred_eq_sub_one]; omega)
      simp only [walk_pass links]
      by_cases own : item.2.userID = userID
      · have touched := links.setValue ⟨item.2.userID, currTime⟩
        rw [step] at touched
        rcases induction touched (some item.1) with ⟨next, walked, reached⟩
        rw [place] at walked
        have found : ownNode userID target (item :: rest) =
            ownNode userID (some item.1) rest := by simp [ownNode, own]
        simp only [if_pos own, searched_cons_own own, found]
        exact ⟨next, walked, by simpa using reached⟩
      · have same : ownNode userID target (item :: rest) = ownNode userID target rest := by
          simp [ownNode, own]
        simp only [if_neg own, same]
        by_cases late : expired item.1 = true
        · rcases removeExpired_links links with ⟨removed, removes, linked⟩
          simp only [if_pos late, removes, searched_cons_expired own late, Loop.ok_bind]
          exact induction linked target
        · rw [step] at links
          rcases induction links target with ⟨next, walked, reached⟩
          rw [place] at walked
          simp only [if_neg late, searched_cons_kept own late]
          exact ⟨next, walked, by simpa using reached⟩

private theorem linkNode_links {items : List Item} (links : link.Links items) {address : Nat}
    (fresh : address ∉ items.map Prod.fst) :
    ∃ next, linkNode userID currTime link address = .ok next ∧
      next.Links (items ++ [(address, ⟨userID, currTime⟩)]) := by
  unfold linkNode
  rcases List.eq_nil_or_concat' items with none_before | ⟨earlier, previous, whole⟩
  · subst none_before
    rw [links.head]
    exact ⟨_, rfl, links.linkFirst address _⟩
  · subst whole
    have head : ∃ start, link.head = some start := by
      rw [links.head, first_append]
      cases earlier with
      | nil => exact ⟨_, rfl⟩
      | cons other _ => exact ⟨_, rfl⟩
    have tail : link.tail = some previous.1 := by
      rw [links.tail, List.getLast?_concat]
      rfl
    have different : previous.1 ≠ address := by
      rintro rfl
      exact fresh (by simp)
    have read : load (link.heap.store address ⟨⟨userID, currTime⟩, none⟩) previous.1 =
        .ok ⟨previous.2, none⟩ := by
      rw [load, store_of_ne _ _ different, links.cell]
      rfl
    rcases head with ⟨start, begins⟩
    have linked := links.linkLast fresh ⟨userID, currTime⟩
    rw [begins, tail, deref]
    simp only [Loop.ok_bind, read]
    rw [begins] at linked
    exact ⟨_, rfl, by simpa using linked⟩

end Walk

/-! ## Taking out the node of a user -/

section Cleanup

variable {userID : Int} {link : Link}
variable {before skipped after : List Item} {item : Item}

private theorem findNode_links (skipped : List Item) {fuel : Nat} (enough : skipped.length < fuel)
    (links : link.Links (before ++ (skipped ++ item :: after)))
    (others : ∀ other ∈ skipped, other.2.userID ≠ userID) (own : item.2.userID = userID) :
    findNode userID fuel link (first (skipped ++ item :: after) none)
        (before.getLast?.map Prod.fst) =
      .ok (some item.1, (before ++ skipped).getLast?.map Prod.fst) := by
  induction skipped generalizing before fuel with
  | nil =>
      cases fuel with
      | zero => cases enough
      | succ fuel =>
          rw [List.nil_append] at links
          simp only [List.nil_append, first_cons, findNode, load_item links, Loop.ok_bind]
          rw [if_neg (not_not.mpr own), List.append_nil]
          rfl
  | cons other rest induction =>
      cases fuel with
      | zero => cases enough
      | succ fuel =>
          rcases List.forall_mem_cons.mp others with ⟨different, later⟩
          have moved : link.Links ((before ++ [other]) ++ (rest ++ item :: after)) := by
            simpa using links
          rw [List.cons_append] at links
          simp only [List.cons_append, first_cons, findNode, load_item links, Loop.ok_bind]
          rw [if_pos different]
          have found := induction (Nat.lt_of_succ_lt_succ enough) moved later
          simpa using found

private theorem removeTarget_after {previous : Item}
    (links : link.Links (before ++ previous :: item :: after)) :
    ∃ next, removeTarget link item.1 (some previous.1) = .ok next ∧
      next.Links (before ++ previous :: after) := by
  have split : before ++ previous :: item :: after = (before ++ [previous]) ++ item :: after := by
    simp
  have whole : link.Links ((before ++ [previous]) ++ item :: after) := split ▸ links
  have notHead := mt whole.isHead_iff.mp (by simp)
  have ends : (if some item.1 = link.tail then some previous.1 else link.tail) =
      (previous :: after).getLast?.map Prod.fst := by
    by_cases last : after = []
    · rw [if_pos (whole.isTail_iff.mpr last), last]
      rfl
    · rw [if_neg (mt whole.isTail_iff.mp last), whole.tail_of_ne_nil last,
        List.getLast?_cons_of_ne_nil last]
  simp only [removeTarget, load_item whole, Loop.ok_bind, if_neg notHead, deref,
    load_item links]
  exact ⟨_, rfl, links.removeAfter ends⟩

variable (links : link.Links (item :: after))
include links

theorem removeTarget_head (pre : Option Nat) :
    removeTarget link item.1 pre =
      .ok ⟨link.heap.free item.1, first after none,
        if first after none = link.tail then none else link.tail⟩ := by
  have whole : link.Links ([] ++ item :: after) := links
  simp only [removeTarget, load_item whole, Loop.ok_bind, if_pos (whole.isHead_iff.mpr rfl)]
  split
  · rfl
  · rfl

theorem first_eq_tail_iff :
    first after none = link.tail ↔ after.length = 1 := by
  have whole : link.Links ([] ++ item :: after) := links
  cases after with
  | nil =>
      refine iff_of_false ?_ (by simp)
      rw [← whole.isTail_iff.mpr rfl]
      exact (Option.some_ne_none _).symm
  | cons second rest =>
      have later : link.Links ([item] ++ second :: rest) := links
      refine later.isTail_iff.trans ?_
      rw [List.length_cons, ← List.length_eq_zero_iff]
      omega

private theorem removeTarget_head_links (long : 2 ≤ after.length) (pre : Option Nat) :
    ∃ next, removeTarget link item.1 pre = .ok next ∧ next.Links after := by
  have whole : link.Links ([] ++ item :: after) := links
  have more : after ≠ [] := by
    rintro rfl
    exact absurd long (by decide)
  rw [removeTarget_head links, if_neg (mt (first_eq_tail_iff links).mp (by omega))]
  exact ⟨_, rfl, links.removeHead (whole.tail_of_ne_nil more)⟩

private theorem two_le_of_removeTarget_head {pre : Option Nat}
    {next : Link} (removes : removeTarget link item.1 pre = .ok next) {items : List Item}
    (follows : next.Follows items) : 2 ≤ after.length := by
  have whole : link.Links ([] ++ item :: after) := links
  have ends := follows.isSome_iff
  rw [removeTarget_head links] at removes
  rw [← Except.ok.inj removes] at ends
  by_contra short
  rcases Nat.lt_or_ge after.length 1 with none_left | one_left
  · -- the last pointer still has the address of the node that was freed
    have gone : after = [] := List.length_eq_zero_iff.mp (by omega)
    subst gone
    rw [if_neg (mt (first_eq_tail_iff links).mp (by simp)),
      ← whole.isTail_iff.mpr rfl] at ends
    cases ends
  · -- the last pointer is cleared although a node is left
    have single : after.length = 1 := by omega
    rw [if_pos ((first_eq_tail_iff links).mpr single)] at ends
    rcases List.length_eq_one_iff.mp single with ⟨second, rfl⟩
    cases ends

end Cleanup

/-! ## Calls and runs -/

section Runs

variable {link : Link} {items : List Item}

variable {call : Call}

theorem Returns.unique {first second : Link} (left : Returns link call first)
    (right : Returns link call second) : first = second := by
  rcases left with ⟨passes, returns⟩
  rcases right with ⟨others, returns'⟩
  have same := (returns (passes + others + 1) (by omega)).symm.trans
    (returns' (passes + others + 1) (by omega))
  exact Except.ok.inj same

variable {userID : Int}

/-- A search always leaves the link in order. -/
theorem findOrCreateBufferNode_returns {currTime : Rat} {expired : Nat → Bool}
    {address : Nat} (links : link.Links items)
    (admitted : (Call.findOrCreateBufferNode userID currTime expired address).Admitted items) :
    ∃ next, Returns link (.findOrCreateBufferNode userID currTime expired address) next ∧
      next.Links
        ((Call.findOrCreateBufferNode userID currTime expired address).after items) := by
  have start : link.Links ([] ++ items) := links
  rcases walk_links items start none with ⟨walkedLink, walked, reached⟩
  rw [← links.head] at walked
  have found : (ownNode userID none items).isSome = true ↔ _ := ownNode_isSome_iff none items
  rw [Option.isSome_none, Bool.false_eq_true, false_or] at found
  simp only [Call.after]
  by_cases present : ∃ item ∈ items, item.2.userID = userID
  · rw [if_pos present]
    rcases Option.isSome_iff_exists.mp (found.mpr present) with ⟨target, isTarget⟩
    refine ⟨walkedLink, ⟨items.length, fun fuel enough => ?_⟩, reached⟩
    have ends := walked fuel enough
    rw [isTarget] at ends
    exact congrArg (· >>= _) ends
  · rw [if_neg present]
    have missing : ownNode userID none items = none := by
      rw [← Option.not_isSome_iff_eq_none]
      exact mt found.mp present
    have links_new : ∃ next, linkNode userID currTime walkedLink address = .ok next ∧ _ :=
      linkNode_links reached admitted
    rcases links_new with ⟨next, linked, grown⟩
    refine ⟨next, ⟨items.length, fun fuel enough => ?_⟩, grown⟩
    have ends := walked fuel enough
    rw [missing] at ends
    exact (congrArg (· >>= _) ends).trans linked

private theorem returns_iff {passes : Nat} {result : Except Fault Link}
    (ends : ∀ fuel, passes < fuel → perform fuel link call = result) (next : Link) :
    Returns link call next ↔ result = .ok next := by
  constructor
  · rintro ⟨others, returns⟩
    rw [← ends (passes + others + 1) (by omega)]
    exact returns _ (by omega)
  · intro returned
    exact ⟨passes, fun fuel enough => (ends fuel enough).trans returned⟩

private theorem cleanupUserBufferNode_ends (flushed : Bool) {skipped after : List Item}
    {item : Item} (links : link.Links (skipped ++ item :: after))
    (others : ∀ other ∈ skipped, other.2.userID ≠ userID) (own : item.2.userID = userID)
    (fuel : Nat) (enough : skipped.length < fuel) :
    perform fuel link (.cleanupUserBufferNode userID flushed) =
      if flushed then removeTarget link item.1 (skipped.getLast?.map Prod.fst)
      else .ok link := by
  have start : link.Links ([] ++ (skipped ++ item :: after)) := links
  have found := findNode_links skipped enough start others own
  rw [List.getLast?_nil, Option.map_none, List.nil_append, ← links.head] at found
  simp only [perform, cleanupUserBufferNode, found, Loop.ok_bind, deref]
  rfl

/-- A clean-up leaves the link in order exactly when it is safe. -/
theorem cleanupUserBufferNode_returns {flushed : Bool} (links : link.Links items)
    (admitted : (Call.cleanupUserBufferNode userID flushed).Admitted items) :
    ((∃ next, Returns link (.cleanupUserBufferNode userID flushed) next ∧
        ∃ nodes, next.Follows nodes) → (Call.cleanupUserBufferNode userID flushed).Safe items) ∧
    ((Call.cleanupUserBufferNode userID flushed).Safe items →
      ∃ next, Returns link (.cleanupUserBufferNode userID flushed) next ∧
        next.Links ((Call.cleanupUserBufferNode userID flushed).after items)) := by
  rcases admitted with ⟨member, isMember, ownMember⟩
  let isOwn : Item → Bool := fun item => decide (item.2.userID = userID)
  have matched : isOwn member = true := decide_eq_true ownMember
  rcases List.exists_of_eraseP isMember matched with
    ⟨item, skipped, after, others, own, whole, erased⟩
  simp only [isOwn, decide_eq_true_eq] at others own erased
  subst whole
  have ends := returns_iff (cleanupUserBufferNode_ends flushed links others own)
  cases flushed with
  | false =>
      -- the flush fails: nothing is taken out
      exact ⟨fun _ failed => absurd failed Bool.false_ne_true,
        fun _ => ⟨link, (ends link).mpr rfl, links⟩⟩
  | true =>
      simp only [ends, if_true, Call.after, erased]
      rcases List.eq_nil_or_concat' skipped with none_before | ⟨earlier, previous, split⟩
      · subst none_before
        refine ⟨?_, fun safe => removeTarget_head_links links (safe rfl item after rfl own) _⟩
        rintro ⟨next, removes, nodes, follows⟩ _ start rest listed _
        rw [← (List.cons.inj listed).2]
        exact two_le_of_removeTarget_head links removes follows
      · subst split
        rw [List.append_assoc] at links
        rcases removeTarget_after links with ⟨next, removes, linked⟩
        rw [List.getLast?_concat]
        refine ⟨?_, fun _ => ⟨next, removes, by simpa using linked⟩⟩
        -- the first node is not one of the user
        intro _ _ start rest listed ownStart
        refine absurd ownStart (others start ?_)
        rw [List.append_assoc] at listed
        cases earlier with
        | nil => simp [(List.cons.inj listed).1]
        | cons other _ => simp [(List.cons.inj listed).1]

def GuardedStep (link next : Link) : Prop :=
  ∃ call : Call, (∀ items, link.Links items → call.Admitted items ∧ call.Safe items) ∧
    Returns link call next

theorem returns_of_safe (links : link.Links items)
    (admitted : call.Admitted items) (safe : call.Safe items) :
    ∃ next, Returns link call next ∧ next.Links (call.after items) := by
  cases call with
  | findOrCreateBufferNode => exact findOrCreateBufferNode_returns links admitted
  | cleanupUserBufferNode => exact (cleanupUserBufferNode_returns links admitted).2 safe

private theorem safe_of_follows {next : Link} {nodes : List Item}
    (links : link.Links items) (admitted : call.Admitted items)
    (returns : Returns link call next) (follows : next.Follows nodes) : call.Safe items := by
  cases call with
  | findOrCreateBufferNode => trivial
  | cleanupUserBufferNode =>
      exact (cleanupUserBufferNode_returns links admitted).1 ⟨next, returns, nodes, follows⟩

private theorem links_of_run (run : ReflTransGen GuardedStep .empty link) :
    ∃ items, link.Links items := by
  induction run with
  | refl => exact ⟨[], LinkedList.empty_links⟩
  | tail _ step links =>
      rcases links with ⟨items, links⟩
      rcases step with ⟨call, guard, returns⟩
      rcases guard items links with ⟨admitted, safe⟩
      rcases returns_of_safe links admitted safe with ⟨next, returned, linked⟩
      rw [returns.unique returned]
      exact ⟨_, linked⟩

end Runs

/-- In every run in which a clean-up takes the first node out only if at least two others
stay, following `next` from the first node leads to the last one, or both pointers are null.
Each further call of this kind returns and leaves the previous nodes without the removed
ones, in their order, and at most one new node of the calling user at the end. A call of the
other kind leaves pointers that do not fit together. -/
theorem link_in_order (link : Link) (run : ReflTransGen GuardedStep .empty link) :
    ∃ items, link.Follows items ∧ ∀ call : Call, call.Admitted items →
      (call.Safe items ↔ ∃ next, Returns link call next ∧ next.Follows (call.after items)) ∧
      (¬call.Safe items → ∀ next, Returns link call next → ∀ nodes, ¬next.Follows nodes) := by
  rcases links_of_run run with ⟨items, links⟩
  refine ⟨items, links.follows, fun call admitted => ⟨⟨?_, ?_⟩, ?_⟩⟩
  · intro safe
    rcases returns_of_safe links admitted safe with ⟨next, returns, linked⟩
    exact ⟨next, returns, linked.follows⟩
  · rintro ⟨next, returns, follows⟩
    exact safe_of_follows links admitted returns follows
  · intro unsafeCall next returns nodes follows
    exact unsafeCall (safe_of_follows links admitted returns follows)

private theorem exists_guardedStep {link : Link} {items : List Item} (call : Call)
    (links : link.Links items) (admitted : call.Admitted items) (safe : call.Safe items) :
    ∃ next, GuardedStep link next ∧ next.Links (call.after items) := by
  rcases returns_of_safe links admitted safe with ⟨next, returns, linked⟩
  refine ⟨next, ⟨call, fun others listed => ?_, returns⟩, linked⟩
  rw [listed.chain.unique links.chain (listed.head.symm.trans links.head)]
  exact ⟨admitted, safe⟩

/-- Three users get a node, and the first one is cleaned up. -/
theorem link_in_order_cleanup :
    ∃ link, ReflTransGen GuardedStep .empty link ∧
      link.Follows [(1, ⟨2, 0⟩), (2, ⟨3, 0⟩)] ∧
      ∃ items, link.Follows items ∧ ∀ call : Call, call.Admitted items → call.Safe items →
        ∃ next, Returns link call next ∧ next.Follows (call.after items) := by
  let user (userID : Int) (address : Nat) : Call :=
    .findOrCreateBufferNode userID 0 (fun _ => false) address
  rcases exists_guardedStep (user 1 0) LinkedList.empty_links List.not_mem_nil trivial with
    ⟨one, first, links⟩
  rcases exists_guardedStep (user 2 1) links (show 1 ∉ [0] by decide) trivial with
    ⟨two, second, links⟩
  rcases exists_guardedStep (user 3 2) links (show 2 ∉ [0, 1] by decide) trivial with
    ⟨three, third, links⟩
  have safe : (Call.cleanupUserBufferNode 1 true).Safe
      [(0, ⟨1, 0⟩), (1, ⟨2, 0⟩), (2, ⟨3, 0⟩)] := by
    rintro _ item rest listed _
    rw [← (List.cons.inj listed).2]
    decide
  rcases exists_guardedStep (.cleanupUserBufferNode 1 true) links ⟨_, .head _, rfl⟩ safe with
    ⟨four, last, links⟩
  have run := (((ReflTransGen.single first).tail second).tail third).tail last
  rcases link_in_order four run with ⟨items, follows, calls⟩
  exact ⟨four, run, links.follows, items, follows, fun call admitted =>
    (calls call admitted).1.mp⟩

private theorem returns_of_passes {link next : Link} {call : Call} (passes : Nat)
    (ends : ∀ more, perform (more + passes) link call = .ok next) : Returns link call next := by
  refine ⟨passes, fun fuel enough => ?_⟩
  rw [← Nat.sub_add_cancel (Nat.le_of_lt enough)]
  exact ends _

/-- Two users get a node, and the node of the first one is cleaned up: the node of the second
user is left, but the pointer to the last node is null, and the call of a third user reads
through it. When the only node is cleaned up, the pointer to the last node keeps the address
of the node that was freed. -/
theorem cleanup_breaks_link :
    (∃ one two three,
      Returns .empty (.findOrCreateBufferNode 1 0 (fun _ => false) 0) one ∧
      Returns one (.findOrCreateBufferNode 2 0 (fun _ => false) 1) two ∧
      Returns two (.cleanupUserBufferNode 1 true) three ∧
      three.head = some 1 ∧ three.tail = none ∧ (∀ items, ¬three.Follows items) ∧
      ∀ more, perform (more + 2) three (.findOrCreateBufferNode 3 0 (fun _ => false) 0) =
        .error .nullPointer) ∧
    ∃ one two,
      Returns .empty (.findOrCreateBufferNode 1 0 (fun _ => false) 0) one ∧
      Returns one (.cleanupUserBufferNode 1 true) two ∧
      two.head = none ∧ two.tail = some 0 ∧ two.heap 0 = none ∧
      ∀ items, ¬two.Follows items := by
  have unbalanced : ∀ link : Link, link.head.isSome ≠ link.tail.isSome →
      ∀ items, ¬link.Follows items :=
    fun _ different _ follows => different follows.isSome_iff
  let one : Link := ⟨Heap.store (fun _ => none) 0 ⟨⟨1, 0⟩, none⟩, some 0, some 0⟩
  let two : Link :=
    ⟨(one.heap.store 1 ⟨⟨2, 0⟩, none⟩).store 0 ⟨⟨1, 0⟩, some 1⟩, some 0, some 1⟩
  constructor
  · exact ⟨one, two, ⟨two.heap.free 0, some 1, none⟩, returns_of_passes 1 fun _ => rfl,
      returns_of_passes 2 fun _ => rfl, returns_of_passes 1 fun _ => rfl, rfl, rfl,
      unbalanced _ (by decide), fun _ => rfl⟩
  · exact ⟨one, ⟨one.heap.free 0, none, some 0⟩, returns_of_passes 1 fun _ => rfl,
      returns_of_passes 1 fun _ => rfl, rfl, rfl, rfl, unbalanced _ (by decide)⟩

end NodeLink

end MetaDedup.Server
