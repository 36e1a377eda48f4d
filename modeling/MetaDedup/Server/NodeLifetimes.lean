import Mathlib.Data.Rat.Defs
import Mathlib.Logic.Relation
import MetaDedup.Server.BufferLink

/-! # Buffer nodes under concurrent calls

`findOrCreateBufferNode_` has two critical sections. In the first one it looks for the
node of the user, refreshes its time, and flushes and frees the nodes of other users that
have not been used for a while. If there is no node it makes one without the lock, and
links it in the second one. Both cores have the same code. The time of a node is only set
here, so it says when the last call began and not whether it has returned. -/

namespace MetaDedup.Server

open Function Relation

/-- `MAX_BUFFER_WAIT_SECS`. -/
def maxBufferWaitSecs : Rat := 18

/-- A node in the link. Its address is the number of the call that has made it. -/
structure TimedNode where
  address : Nat
  userID : Int
  lastUseTime : Rat

/-- Where a call of `secondStageDedup` stands. A call that has found no node makes one,
sets its time, and links it. -/
inductive CallPosition
  | called
  | notFound
  | created (lastUseTime : Rat)
  | working (address : Nat)
  | returned

def CallPosition.Links : CallPosition → Prop
  | .notFound => True
  | .created _ => True
  | _ => False

/-- The clock, the link and the calls. -/
structure BufferPool where
  currTime : Rat
  link : List TimedNode
  position : Nat → CallPosition

namespace BufferPool

def start (currTime : Rat) : BufferPool := ⟨currTime, [], fun _ => .called⟩

def expires (userID : Int) (currTime : Rat) (node : TimedNode) : Bool :=
  node.userID != userID && decide (currTime - node.lastUseTime > maxBufferWaitSecs)

def touch (userID : Int) (currTime : Rat) (node : TimedNode) : TimedNode :=
  if node.userID = userID then { node with lastUseTime := currTime } else node

/-- The link after the walk of the first critical section. -/
def searchedLink (pool : BufferPool) (userID : Int) : List TimedNode :=
  (expireNodes (fun _ _ => ()) (expires userID pool.currTime) () pool.link).2.map
    (touch userID pool.currTime)

inductive Event
  | wait (elapsed : Rat)
  | search (call : Nat)
  | create (call : Nat)
  | link (call : Nat)
  | perform (call : Nat)

def moveTo (pool : BufferPool) (call : Nat) (position : CallPosition) : BufferPool :=
  { pool with position := update pool.position call position }

def setLink (pool : BufferPool) (link : List TimedNode) : BufferPool := { pool with link }

def foundPosition (userID : Int) (link : List TimedNode) : CallPosition :=
  match findUserNode TimedNode.userID userID link with
  | some found => .working found.target.address
  | none => .notFound

variable (users : Nat → Int)

def step (pool : BufferPool) : Event → Option BufferPool
  | .wait elapsed => some { pool with currTime := pool.currTime + elapsed }
  | .search call =>
      match pool.position call with
      | .called =>
          let link := pool.searchedLink (users call)
          some ((pool.setLink link).moveTo call (foundPosition (users call) link))
      | _ => none
  | .create call =>
      match pool.position call with
      | .notFound => some (pool.moveTo call (.created pool.currTime))
      | _ => none
  | .link call =>
      match pool.position call with
      | .created lastUseTime =>
          let link := pool.link ++ [⟨call, users call, lastUseTime⟩]
          some ((pool.setLink link).moveTo call (.working call))
      | _ => none
  | .perform call =>
      match pool.position call with
      | .working _ => some (pool.moveTo call .returned)
      | _ => none

def Step (pool next : BufferPool) : Prop := ∃ event, pool.step users event = some next

/-- A search disturbs no other call: no call of the same user is about to link a node, and
no node that a call works on has expired. -/
def Undisturbed (pool : BufferPool) : Event → Prop
  | .search call =>
      (∀ other, users other = users call → ¬(pool.position other).Links) ∧
        ∀ other address, pool.position other = .working address →
          ∀ node ∈ pool.link, node.address = address →
            expires (users call) pool.currTime node = false
  | _ => True

def UndisturbedStep (pool next : BufferPool) : Prop :=
  ∃ event, pool.Undisturbed users event ∧ pool.step users event = some next

/-- Every user has at most one node, and the node a call works on is in the link. -/
structure Safe (pool : BufferPool) : Prop where
  unique : (pool.link.map TimedNode.userID).Nodup
  alive : ∀ call address, pool.position call = .working address →
    ∃ node ∈ pool.link, node.address = address

/-- What holds between steps: a call works on a node of its user, a user for whom a call
is about to link a node has none yet, and there is only one such call of a user. -/
structure Sound (pool : BufferPool) : Prop where
  unique : (pool.link.map TimedNode.userID).Nodup
  works : ∀ call address, pool.position call = .working address →
    ∃ node ∈ pool.link, node.address = address ∧ node.userID = users call
  absent : ∀ call, (pool.position call).Links → ∀ node ∈ pool.link,
    node.userID ≠ users call
  single : ∀ call other, (pool.position call).Links → (pool.position other).Links →
    users call = users other → call = other

variable {users} {pool : BufferPool}

private theorem start_sound (currTime : Rat) : (start currTime).Sound users where
  unique := List.nodup_nil
  works := by
    intro call address working
    cases working
  absent := by
    intro call links
    cases links
  single := by
    intro call other links
    cases links

theorem Sound.safe (sound : pool.Sound users) : pool.Safe where
  unique := sound.unique
  alive := by
    intro call address working
    rcases sound.works call address working with ⟨node, linked, same, _⟩
    exact ⟨node, linked, same⟩

/-! ## The walk -/

variable {userID : Int}

@[simp] theorem touch_userID (userID : Int) (currTime : Rat) (node : TimedNode) :
    (touch userID currTime node).userID = node.userID := by
  rw [touch]
  split <;> rfl

@[simp] theorem touch_address (userID : Int) (currTime : Rat) (node : TimedNode) :
    (touch userID currTime node).address = node.address := by
  rw [touch]
  split <;> rfl

theorem searchedLink_eq (pool : BufferPool) (userID : Int) :
    pool.searchedLink userID =
      (pool.link.filter fun node => !expires userID pool.currTime node).map
        (touch userID pool.currTime) := by
  rw [searchedLink, expireNodes_nodes]

private theorem mem_searchedLink {node : TimedNode} (linked : node ∈ pool.searchedLink userID) :
    ∃ before ∈ pool.link, before.address = node.address ∧ before.userID = node.userID := by
  rw [searchedLink_eq] at linked
  rcases List.mem_map.mp linked with ⟨before, kept, rfl⟩
  exact ⟨before, (List.mem_filter.mp kept).1, (touch_address _ _ _).symm,
    (touch_userID _ _ _).symm⟩

private theorem searchedLink_mem {node : TimedNode} (linked : node ∈ pool.link)
    (stays : expires userID pool.currTime node = false) :
    ∃ after ∈ pool.searchedLink userID,
      after.address = node.address ∧ after.userID = node.userID := by
  refine ⟨touch userID pool.currTime node, ?_, touch_address _ _ _, touch_userID _ _ _⟩
  rw [searchedLink_eq]
  apply List.mem_map_of_mem
  rw [List.mem_filter, stays]
  exact ⟨linked, rfl⟩

private theorem searchedLink_unique (unique : (pool.link.map TimedNode.userID).Nodup)
    (userID : Int) : ((pool.searchedLink userID).map TimedNode.userID).Nodup := by
  have users : TimedNode.userID ∘ touch userID pool.currTime = TimedNode.userID := by
    funext node
    exact touch_userID _ _ _
  rw [searchedLink_eq, List.map_map, users]
  exact unique.sublist (List.filter_sublist.map _)

/-! ## The steps -/

variable {call : Nat}

theorem moveTo_position_self (call : Nat) (position : CallPosition) :
    (pool.moveTo call position).position call = position :=
  update_self _ _ _

theorem moveTo_position_of_ne {other : Nat} (different : other ≠ call)
    (position : CallPosition) :
    (pool.moveTo call position).position other = pool.position other :=
  update_of_ne different _ _

section

variable (sound : pool.Sound users)
include sound

/-- A call that neither works on a node nor is about to link one has nothing to keep. -/
theorem Sound.moveTo {position : CallPosition}
    (works : ∀ address, position = .working address →
      ∃ node ∈ pool.link, node.address = address ∧ node.userID = users call)
    (absent : position.Links → ∀ node ∈ pool.link, node.userID ≠ users call)
    (single : position.Links → ∀ other, other ≠ call → (pool.position other).Links →
      users other ≠ users call) :
    (pool.moveTo call position).Sound users where
  unique := sound.unique
  works := by
    intro other address working
    by_cases own : other = call
    · subst own
      rw [moveTo_position_self] at working
      exact works address working
    · rw [moveTo_position_of_ne own] at working
      exact sound.works other address working
  absent := by
    intro other links
    by_cases own : other = call
    · subst own
      rw [moveTo_position_self] at links
      exact absent links
    · rw [moveTo_position_of_ne own] at links
      exact sound.absent other links
  single := by
    intro first second firstLinks secondLinks same
    by_cases firstOwn : first = call
    · by_cases secondOwn : second = call
      · rw [firstOwn, secondOwn]
      · rw [moveTo_position_of_ne secondOwn] at secondLinks
        rw [firstOwn, moveTo_position_self] at firstLinks
        exact absurd (firstOwn ▸ same.symm) (single firstLinks second secondOwn secondLinks)
    · rw [moveTo_position_of_ne firstOwn] at firstLinks
      by_cases secondOwn : second = call
      · rw [secondOwn, moveTo_position_self] at secondLinks
        exact absurd (secondOwn ▸ same) (single secondLinks first firstOwn firstLinks)
      · rw [moveTo_position_of_ne secondOwn] at secondLinks
        exact sound.single first second firstLinks secondLinks same

theorem Sound.searchedLink
    (stays : ∀ other address, pool.position other = .working address →
      ∀ node ∈ pool.link, node.address = address →
        expires userID pool.currTime node = false) :
    (pool.setLink (pool.searchedLink userID)).Sound users where
  unique := searchedLink_unique sound.unique userID
  works := by
    intro call address working
    rcases sound.works call address working with ⟨node, linked, same, user⟩
    rcases searchedLink_mem linked (stays call address working node linked same) with
      ⟨after, kept, sameAddress, sameUser⟩
    exact ⟨after, kept, sameAddress.trans same, sameUser.trans user⟩
  absent := by
    intro call links node linked
    rcases mem_searchedLink linked with ⟨before, there, _, sameUser⟩
    rw [← sameUser]
    exact sound.absent call links before there
  single := sound.single

theorem Sound.search (undisturbed : pool.Undisturbed users (.search call)) :
    ((pool.setLink (pool.searchedLink (users call))).moveTo call
      (foundPosition (users call) (pool.searchedLink (users call)))).Sound users := by
  apply (sound.searchedLink undisturbed.2).moveTo
  · intro address working
    rw [foundPosition] at working
    cases located : findUserNode TimedNode.userID (users call)
        (pool.searchedLink (users call)) with
    | none =>
        rw [located] at working
        cases working
    | some found =>
        rw [located] at working
        cases working
        rcases findUserNode_some located with ⟨whole, user⟩
        refine ⟨found.target, ?_, rfl, user⟩
        change found.target ∈ pool.searchedLink (users call)
        rw [← whole]
        exact found.link_perm.mem_iff.mpr List.mem_cons_self
  · intro links
    rw [foundPosition] at links
    cases located : findUserNode TimedNode.userID (users call)
        (pool.searchedLink (users call)) with
    | none => exact findUserNode_none located
    | some found =>
        rw [located] at links
        cases links
  · intro _ other _ otherLinks same
    exact undisturbed.1 other same otherLinks

theorem Sound.link {lastUseTime : Rat}
    (created : pool.position call = .created lastUseTime) :
    ((pool.setLink (pool.link ++ [⟨call, users call, lastUseTime⟩])).moveTo call
      (.working call)).Sound users := by
  have links : (pool.position call).Links := by
    rw [created]
    trivial
  have own : ∀ {node : TimedNode}, node ∈ [(⟨call, users call, lastUseTime⟩ : TimedNode)] →
      node.address = call ∧ node.userID = users call := by
    intro node listed
    cases List.mem_singleton.mp listed
    exact ⟨rfl, rfl⟩
  constructor
  case unique =>
    change ((pool.link ++ [_]).map TimedNode.userID).Nodup
    rw [List.map_append, List.nodup_append']
    refine ⟨sound.unique, List.nodup_singleton _, ?_⟩
    intro user before new
    rcases List.mem_map.mp before with ⟨node, linked, rfl⟩
    exact sound.absent call links node linked (List.mem_singleton.mp new)
  case works =>
    intro other address working
    by_cases same : other = call
    · subst same
      rw [moveTo_position_self] at working
      cases working
      exact ⟨_, List.mem_append_right _ (List.mem_singleton_self _), rfl, rfl⟩
    · rw [moveTo_position_of_ne same] at working
      rcases sound.works other address working with ⟨node, linked, there⟩
      exact ⟨node, List.mem_append_left _ linked, there⟩
  case absent =>
    intro other otherLinks node linked
    by_cases same : other = call
    · subst same
      rw [moveTo_position_self] at otherLinks
      cases otherLinks
    · rw [moveTo_position_of_ne same] at otherLinks
      rcases List.mem_append.mp linked with old | new
      · exact sound.absent other otherLinks node old
      · rw [(own new).2]
        exact fun equal => same (sound.single other call otherLinks links equal.symm)
  case single =>
    intro first second firstLinks secondLinks
    have earlier : ∀ other, (((pool.setLink (pool.link ++
        [⟨call, users call, lastUseTime⟩])).moveTo call (.working call)).position
          other).Links → (pool.position other).Links := by
      intro other otherLinks
      by_cases same : other = call
      · rw [same]
        exact links
      · rwa [moveTo_position_of_ne same] at otherLinks
    exact sound.single first second (earlier first firstLinks) (earlier second secondLinks)

theorem Sound.step {next : BufferPool}
    (steps : pool.UndisturbedStep users next) : next.Sound users := by
  rcases steps with ⟨event, undisturbed, stepped⟩
  cases event with
  | wait elapsed =>
      cases stepped
      exact ⟨sound.unique, sound.works, sound.absent, sound.single⟩
  | search call =>
      rw [BufferPool.step] at stepped
      cases position : pool.position call with
      | called =>
          rw [position] at stepped
          cases stepped
          exact sound.search undisturbed
      | _ =>
          rw [position] at stepped
          cases stepped
  | create call =>
      rw [BufferPool.step] at stepped
      cases position : pool.position call with
      | notFound =>
          rw [position] at stepped
          cases stepped
          have links : (pool.position call).Links := by
            rw [position]
            trivial
          apply sound.moveTo
          · intro address working
            cases working
          · exact fun _ => sound.absent call links
          · intro _ other different otherLinks same
            exact different (sound.single other call otherLinks links same)
      | _ =>
          rw [position] at stepped
          cases stepped
  | link call =>
      rw [BufferPool.step] at stepped
      cases position : pool.position call with
      | created lastUseTime =>
          rw [position] at stepped
          cases stepped
          exact sound.link position
      | _ =>
          rw [position] at stepped
          cases stepped
  | perform call =>
      rw [BufferPool.step] at stepped
      cases position : pool.position call with
      | working address =>
          rw [position] at stepped
          cases stepped
          apply sound.moveTo
          · intro address working
            cases working
          · intro links
            cases links
          · intro links
            cases links
      | _ =>
          rw [position] at stepped
          cases stepped

end

/-- In every run in which no search disturbs another call, every user has at most one
node, and the node a call works on stays in the link until the call returns. -/
theorem nodes_unique_and_alive (users : Nat → Int) (currTime : Rat) {pool : BufferPool}
    (run : ReflTransGen (UndisturbedStep users) (start currTime) pool) :
    pool.Safe := by
  have sound : pool.Sound users := by
    induction run with
    | refl => exact start_sound currTime
    | tail _ steps induction => exact induction.step steps
  exact sound.safe

def oneNode : BufferPool := ((start 0).setLink [⟨0, 1, 0⟩]).moveTo 0 (.working 0)

private theorem oneNode_run :
    ReflTransGen (UndisturbedStep fun _ => 1) (start 0) oneNode := by
  have run : ReflTransGen (UndisturbedStep fun _ => 1) (start 0)
      ((((((start 0).setLink []).moveTo 0 .notFound).moveTo 0 (.created 0)).setLink
        [⟨0, 1, 0⟩]).moveTo 0 (.working 0)) :=
    .head ⟨.search 0, ⟨fun _ _ links => links, fun _ _ working => by cases working⟩, rfl⟩
      (.head ⟨.create 0, trivial, rfl⟩ (.head ⟨.link 0, trivial, rfl⟩ .refl))
  simp only [moveTo, setLink, update_idem] at run
  exact run

/-- Two calls of one user share the node that the first one has made. -/
theorem nodes_unique_and_alive_shared :
    ∃ pool, ReflTransGen (UndisturbedStep fun _ => 1) (start 0) pool ∧
      pool.position 0 = .working 0 ∧ pool.position 1 = .working 0 ∧ pool.Safe := by
  have undisturbed : oneNode.Undisturbed (fun _ => 1) (.search 1) := by
    constructor
    · intro other _ links
      by_cases first : other = 0
      · rw [first] at links
        cases links
      · rw [oneNode, moveTo_position_of_ne first] at links
        cases links
    · intro _ _ _ node linked _
      cases List.mem_singleton.mp linked
      rfl
  have run := oneNode_run.tail ⟨.search 1, undisturbed, rfl⟩
  exact ⟨_, run, rfl, rfl, nodes_unique_and_alive _ 0 run⟩

/-- Two calls of one user both find no node and both link one. A call whose node has not
been used for a while loses it to a call of another user. -/
theorem node_duplicated_or_freed :
    (∃ pool, ReflTransGen (Step fun _ => 1) (start 0) pool ∧
      pool.link.map TimedNode.userID = [1, 1] ∧ ¬pool.Safe) ∧
    ∃ pool, ReflTransGen (Step fun call => call) (start 0) pool ∧
      pool.position 0 = .working 0 ∧ pool.link = [] ∧ ¬pool.Safe := by
  constructor
  · refine ⟨_, .head ⟨.search 0, rfl⟩ (.head ⟨.search 1, rfl⟩ (.head ⟨.create 0, rfl⟩
      (.head ⟨.create 1, rfl⟩ (.head ⟨.link 0, rfl⟩ (.head ⟨.link 1, rfl⟩ .refl))))), rfl, ?_⟩
    intro safe
    exact absurd safe.unique (by decide)
  · refine ⟨_, .head ⟨.search 0, rfl⟩ (.head ⟨.create 0, rfl⟩ (.head ⟨.link 0, rfl⟩
      (.head ⟨.wait 19, rfl⟩ (.head ⟨.search 1, rfl⟩ .refl)))), rfl, ?_, ?_⟩
    · exact List.length_eq_zero_iff.mp (by decide +kernel)
    · intro safe
      rcases safe.alive 0 0 rfl with ⟨node, linked, _⟩
      exact absurd (List.length_pos_of_mem linked) (by decide +kernel)

end BufferPool

end MetaDedup.Server
