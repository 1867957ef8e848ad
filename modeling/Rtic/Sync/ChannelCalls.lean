import Rtic.Sync.ChannelValues
namespace Rtic.Sync.Channel
open Function Buckets Transition Rtic.Common
open BoundedDeque (Documented listApi listApi_documented)
variable {D T : Type} {N : Nat}

-- The Sender that takes a step.
def Event.actor : Event T → Option Nat
  | .tryCalled i _ => some i
  | .sendCalled i _ => some i
  | .passed i => some i
  | .refused i _ _ => some i
  | .claimed i _ => some i
  | .granted i _ => some i
  | .queued i _ => some i
  | .stillPending i => some i
  | .foundClosed i => some i
  | .forgotten i _ => some i
  | .cancelled i => some i
  | .unlinked i _ => some i
  | .reclaimed i _ => some i
  | .nothingLeft i => some i
  | .gaveBack i _ _ => some i
  | .left i _ _ => some i
  | .wrote i _ _ => some i
  | .pushed i _ _ => some i
  | .sent i _ _ => some i
  | .cloned i _ => some i
  | .senderDropped i => some i
  | .lastWoke i _ => some i
  | .senderAsked i _ _ => some i
  | _ => none

-- The call of try_send or send that a step of Sender `i` begins.
def Event.call (i : Nat) : Event T → Option T
  | .tryCalled j val => if j = i then some val else none
  | .sendCalled j val => if j = i then some val else none
  | _ => none

def Event.pushBy (i : Nat) (e : Event T) : Option T := e.push.bind fun p => if p.1 = i then some p.2 else none

def Event.claimBy (i : Nat) : Event T → Option Nat
  | .claimed j slot => if j = i then some slot else none
  | .granted j slot => if j = i then some slot else none
  | _ => none

def Event.ok : Event T → Option (Nat × T)
  | .sent i val _ => some (i,val)
  | _ => none

def Event.sentBy (i : Nat) (e : Event T) : Option T := e.ok.bind fun p => if p.1 = i then some p.2 else none

def thisCall (i : Nat) (evs : List (Event T)) : List (Event T) := since (fun e => (e.call i).isSome) evs
def callValue (i : Nat) (evs : List (Event T)) : Option T := (evs.filterMap (Event.call i)).getLast?
def pushesOf (i : Nat) (evs : List (Event T)) : List T := evs.filterMap (Event.pushBy i)
def claimsOf (i : Nat) (evs : List (Event T)) : List Nat := evs.filterMap (Event.claimBy i)
def sentOf (i : Nat) (evs : List (Event T)) : List T := evs.filterMap (Event.sentBy i)

section
variable {evs : List (Event T)} {e : Event T} {i : Nat}

theorem thisCall_snoc : thisCall i (evs++[e]) = if (e.call i).isSome then [] else thisCall i evs++[e] := since_snoc _ _ _
theorem callValue_snoc : callValue i (evs++[e]) = (e.call i).or (callValue i evs) := by
  unfold callValue
  rw [filterMap_snoc]
  cases e.call i <;> simp
theorem pushesOf_snoc : pushesOf i (evs++[e]) = pushesOf i evs++(e.pushBy i).toList := filterMap_snoc _ _ _
theorem claimsOf_snoc : claimsOf i (evs++[e]) = claimsOf i evs++(e.claimBy i).toList := filterMap_snoc _ _ _
theorem sentOf_snoc : sentOf i (evs++[e]) = sentOf i evs++(e.sentBy i).toList := filterMap_snoc _ _ _

theorem foreign (other : e.actor ≠ some i) :
    e.call i = none ∧ e.pushBy i = none ∧ e.claimBy i = none ∧ e.sentBy i = none := by
  cases e <;> simp_all [Event.actor,Event.call,Event.pushBy,Event.push,Event.claimBy,Event.sentBy,Event.ok]
end

def SenderPoint.announced : SenderPoint T → List T
  | .notify val => [val]
  | _ => []

-- The value of the call that a Sender is in.
def SenderPoint.value : SenderPoint T → Option T
  | .tryQueue val => some val
  | .tryClosed val => some val
  | .tryClaim val => some val
  | .fresh val => some val
  | .waiting val => some val
  | .unlink val _ => some val
  | .takeSlot val _ => some val
  | .giveBack val _ _ => some val
  | .leave val _ => some val
  | .write val _ => some val
  | .publish val _ => some val
  | .notify val => some val
  | _ => none

-- The call has not taken a slot for itself.
def SenderPoint.slotless : SenderPoint T → Bool
  | .unlink _ outcome => outcome.slots.isEmpty
  | .takeSlot _ outcome => outcome.slots.isEmpty
  | .giveBack _ outcome _ => outcome.slots.isEmpty
  | .leave _ outcome => outcome.slots.isEmpty
  | .write _ _ => false
  | .publish _ _ => false
  | .notify _ => false
  | _ => true

-- What the call that a Sender is in has done so far.
def Account (evs : List (Event T)) (i : Nat) (p : SenderPoint T) : Prop :=
  ∀ val, p.value = some val → callValue i evs = some val ∧ pushesOf i (thisCall i evs) = p.announced ∧
    (p.slotless = true → claimsOf i (thisCall i evs) = [])

structure Accounted (evs : List (Event T)) (s : State D T) : Prop where
  account : ∀ i, Account evs i (s.sender i).point
  sent : ∀ i, pushesOf i evs = sentOf i evs++(s.sender i).point.announced

section
variable {evs : List (Event T)} {s t : State D T} {e : Event T} {i : Nat} {x y : Sender T}

theorem account_foreign (other : e.actor ≠ some i) (p : SenderPoint T) :
    Account (evs++[e]) i p ↔ Account evs i p := by
  obtain ⟨call,push,claim,_⟩ := foreign other
  have same : callValue i (evs++[e]) = callValue i evs := by rw [callValue_snoc,call]; rfl
  have since_ : thisCall i (evs++[e]) = thisCall i evs++[e] := by rw [thisCall_snoc,call]; rfl
  have pushes : pushesOf i (thisCall i (evs++[e])) = pushesOf i (thisCall i evs) := by
    rw [since_,pushesOf_snoc,push]
    exact List.append_nil _
  have claims : claimsOf i (thisCall i (evs++[e])) = claimsOf i (thisCall i evs) := by
    rw [since_,claimsOf_snoc,claim]
    exact List.append_nil _
  unfold Account
  rw [same,pushes,claims]

theorem local_actor {api : Deque D} {u : State D T} (moves : Local api u i x e y) : e.actor = some i := by
  cases moves <;> rfl

-- A step within a call of the Sender's own.
theorem account_own {p q : SenderPoint T} (account : Account evs i p) (own : e.call i = none)
    (value : ∀ val, q.value = some val → p.value = some val ∧ q.announced = p.announced++(e.pushBy i).toList)
    (slotless : q.slotless = true → p.slotless = true ∧ e.claimBy i = none) : Account (evs++[e]) i q := by
  intro val here
  obtain ⟨before,announced⟩ := value val here
  obtain ⟨called,pushed,claimed⟩ := account val before
  rw [callValue_snoc,thisCall_snoc,own,if_neg (by simp),pushesOf_snoc,claimsOf_snoc,pushed,announced]
  refine ⟨called,rfl,fun less => ?_⟩
  obtain ⟨still,claim⟩ := slotless less
  rw [claim,claimed still]
  rfl

-- After the call, and once it has taken a slot for itself.
theorem account_out {p : SenderPoint T} (out : p.value = none) : Account evs i p := by
  intro val here
  rw [out] at here
  cases here

theorem account_past {p q : SenderPoint T} (account : Account evs i p) (own : e.call i = none)
    (value : ∀ val, q.value = some val → p.value = some val ∧ q.announced = p.announced++(e.pushBy i).toList)
    (past : q.slotless = false) : Account (evs++[e]) i q := by
  refine account_own account own value fun less => ?_
  rw [past] at less
  cases less

theorem account_call {p : SenderPoint T} {val : T} (call : e.call i = some val)
    (value : p.value = some val) (announced : p.announced = []) : Account (evs++[e]) i p := by
  intro w here
  rw [value] at here
  cases here
  rw [callValue_snoc,thisCall_snoc,call,announced]
  exact ⟨rfl,rfl,fun _ => rfl⟩

theorem local_account {api : Deque D} {u : State D T} (moves : Local api u i x e y) (account : Account evs i x.point) :
    Account (evs++[e]) i y.point := by
  cases moves with
  | tryCalled => exact account_call (by simp [Event.call]) rfl rfl
  | sendCalled => exact account_call (by simp [Event.call]) rfl rfl
  | granted future alive popped =>
    rcases future_cases future with rfl | rfl <;>
      exact account_past account rfl (fun _ same => ⟨same,rfl⟩) rfl
  | pollClosed future closed =>
    rcases future_cases future with rfl | rfl <;>
      exact account_own account rfl (fun _ same => ⟨same,rfl⟩) fun _ => ⟨rfl,rfl⟩
  | denied future alive popped =>
    rcases future_cases future with rfl | rfl <;>
      exact account_own account rfl (fun _ same => ⟨same,rfl⟩) fun _ => ⟨rfl,rfl⟩
  | stillPending future alive queued =>
    rcases future_cases future with rfl | rfl <;>
      exact account_own account rfl (fun _ same => ⟨same,rfl⟩) fun _ => ⟨rfl,rfl⟩
  | left =>
    rename_i val outcome c f
    cases outcome with
    | slot idx => exact account_past account rfl (fun _ same => ⟨same,rfl⟩) rfl
    | noReceiver => exact account_out rfl
    | dropped => exact account_out rfl
  | queueBusy busy => exact account_out rfl
  | isClosed closed => exact account_out rfl
  | forgotten => exact account_out rfl
  | asked => exact account_out rfl
  | _ => exact account_own account rfl (fun _ same => ⟨same,rfl⟩) fun same => ⟨same,rfl⟩

theorem local_announced {api : Deque D} {u : State D T} (moves : Local api u i x e y) :
    x.point.announced = [] ∧ y.point.announced = [] ∧ e.pushBy i = none ∧ e.sentBy i = none := by
  cases moves with
  | left =>
    rename_i val outcome c f
    cases outcome <;> exact ⟨rfl,rfl,rfl,rfl⟩
  | pollClosed future closed => rcases future_cases future with rfl | rfl <;> exact ⟨rfl,rfl,rfl,rfl⟩
  | granted future alive popped => rcases future_cases future with rfl | rfl <;> exact ⟨rfl,rfl,rfl,rfl⟩
  | denied future alive popped => rcases future_cases future with rfl | rfl <;> exact ⟨rfl,rfl,rfl,rfl⟩
  | stillPending future alive queued => rcases future_cases future with rfl | rfl <;> exact ⟨rfl,rfl,rfl,rfl⟩
  | _ => exact ⟨rfl,rfl,rfl,rfl⟩

-- Only the Sender that takes the step moves on; `clone` also makes a new one.
theorem step_point {api : Deque D} {u v : State D T} (taken : Step api u e v) (other : e.actor ≠ some i) :
    (v.sender i).point = (u.sender i).point ∨ ((v.sender i).point = .idle ∧ i = u.handles) := by
  have apart : ∀ {j y}, e.actor = some j → (update u.sender j y i).point = (u.sender i).point := by
    intro j y actor
    rw [update_of_ne]
    rintro rfl
    exact other actor
  cases taken with
  | sends j here moves => exact Or.inl (apart (local_actor moves))
  | cloned here =>
    by_cases new : i = u.handles
    · subst new
      exact Or.inr ⟨by simp [idle],rfl⟩
    · exact Or.inl (by simp [update_of_ne new])
  | gaveBack here returned =>
    rename_i slot handed w j val outcome c f
    have apart : i ≠ j := by
      rintro rfl
      exact other rfl
    left
    simp only [update_of_ne apart]
    exact returnFreeSlot_points returned i
  | received here returned => exact Or.inl (returnFreeSlot_points returned i)
  | unqueued here got => exact Or.inl (popWaiter_points got i)
  | _ => first | exact Or.inl rfl | exact Or.inl (apart rfl)

theorem accounted_own {p q : SenderPoint T} (before : pushesOf i evs = sentOf i evs++p.announced)
    (moved : p.announced++(e.pushBy i).toList = (e.sentBy i).toList++q.announced) :
    pushesOf i (evs++[e]) = sentOf i (evs++[e])++q.announced := by
  rw [pushesOf_snoc,sentOf_snoc,before,List.append_assoc,List.append_assoc,moved]

-- A Sender's own step, alone or on the channel.
theorem own_accounted {api : Deque D} {u v : State D T} (taken : Step api u e v) (own : e.actor = some i)
    (account : Account evs i (u.sender i).point)
    (sent : pushesOf i evs = sentOf i evs++(u.sender i).point.announced) :
    Account (evs++[e]) i (v.sender i).point ∧
      pushesOf i (evs++[e]) = sentOf i (evs++[e])++(v.sender i).point.announced := by
  cases taken with
  | sends j here moves =>
    obtain rfl := Option.some.inj ((local_actor moves).symm.trans own)
    obtain ⟨before,after,pushes,sends⟩ := local_announced moves
    rw [here] at account sent
    simp only [update_self]
    exact ⟨local_account moves account,accounted_own sent (by rw [before,after,pushes,sends]; rfl)⟩
  | receives here moves => cases moves <;> cases own
  | tryClaimed here got =>
    cases own
    rw [here] at account sent
    simp only [update_self]
    exact ⟨account_past account rfl (fun _ same => ⟨same,rfl⟩) rfl,accounted_own sent rfl⟩
  | tryFull here got =>
    cases own
    rw [here] at account sent
    simp only [update_self]
    exact ⟨account_out rfl,accounted_own sent rfl⟩
  | claimed here future alive first some_ =>
    cases own
    rw [here] at account sent
    simp only [update_self]
    rcases future_cases future with rfl | rfl <;>
      exact ⟨account_past account rfl (fun _ same => ⟨same,rfl⟩) rfl,accounted_own sent rfl⟩
  | queued here future alive full =>
    cases own
    rw [here] at account sent
    simp only [update_self]
    rcases future_cases future with rfl | rfl <;>
      exact ⟨account_own account rfl (fun _ same => ⟨same,rfl⟩) fun _ => ⟨rfl,rfl⟩,accounted_own sent rfl⟩
  | unlinked here queued =>
    cases own
    rw [here] at account sent
    simp only [update_self]
    exact ⟨account_own account rfl (fun _ same => ⟨same,rfl⟩) fun same => ⟨same,rfl⟩,accounted_own sent rfl⟩
  | gaveBack here returned =>
    cases own
    rw [here] at account sent
    simp only [update_self]
    exact ⟨account_own account rfl (fun _ same => ⟨same,rfl⟩) fun same => ⟨same,rfl⟩,accounted_own sent rfl⟩
  | wrote here =>
    cases own
    rw [here] at account sent
    simp only [update_self]
    exact ⟨account_past account rfl (fun _ same => ⟨same,rfl⟩) rfl,accounted_own sent rfl⟩
  | pushed here =>
    cases own
    rw [here] at account sent
    simp only [update_self]
    refine ⟨account_past account rfl (fun _ same => ⟨same,?_⟩) rfl,?_⟩
    · simp_all [Event.pushBy,Event.push,SenderPoint.announced,SenderPoint.value]
    · exact accounted_own sent (by simp [Event.pushBy,Event.push,Event.sentBy,Event.ok,SenderPoint.announced])
  | sent here =>
    cases own
    rw [here] at account sent
    simp only [update_self]
    exact ⟨account_out rfl,accounted_own sent (by simp [Event.pushBy,Event.push,Event.sentBy,Event.ok,SenderPoint.announced])⟩
  | cloned here =>
    cases own
    rw [here] at sent
    have still : (update u.sender u.handles idle i).point = .idle := by
      by_cases new : i = u.handles
      · rw [new,update_self]
        rfl
      · rw [update_of_ne new,here]
    simp only [still]
    exact ⟨account_out rfl,accounted_own sent rfl⟩
  | senderDropped here =>
    cases own
    rw [here] at sent
    simp only [update_self]
    split <;> exact ⟨account_out rfl,accounted_own sent rfl⟩
  | lastWoke here =>
    cases own
    rw [here] at sent
    simp only [update_self]
    exact ⟨account_out rfl,accounted_own sent rfl⟩
  | _ => cases own
end

section
variable {evs : List (Event T)} {s t : State (List Nat) T} {e : Event T}

theorem step_accounted (sound : Sound N evs s) (accounted : Accounted evs s) (taken : Step (listApi N) s e t) :
    Accounted (evs++[e]) t := by
  have both : ∀ i, Account (evs++[e]) i (t.sender i).point ∧
      pushesOf i (evs++[e]) = sentOf i (evs++[e])++(t.sender i).point.announced := by
    intro i
    have account := accounted.account i
    have sent := accounted.sent i
    by_cases own : e.actor = some i
    · exact own_accounted taken own account sent
    · have none_ := foreign own
      rw [account_foreign own,pushesOf_snoc,sentOf_snoc,none_.2.1,none_.2.2.2]
      rcases step_point taken own with same | ⟨new,rfl⟩
      · rw [same]
        exact ⟨account,by simpa using sent⟩
      · rw [new]
        rw [sound.queue.unused _ (Nat.le_refl _)] at sent
        exact ⟨account_out rfl,by simpa [gone,SenderPoint.announced] using sent⟩
  exact ⟨fun i => (both i).1,fun i => (both i).2⟩

theorem initial_accounted :
    Accounted [] (initial (listApi N) N : State (List Nat) T) := by
  have points : ∀ i, (if i = 0 then idle else gone : Sender T).point.value = none ∧
      (if i = 0 then idle else gone : Sender T).point.announced = [] := by
    intro i
    split <;> exact ⟨rfl,rfl⟩
  constructor
  · intro i val here
    cases (points i).1.symm.trans here
  · intro i
    exact (points i).2.symm
end

end Rtic.Sync.Channel
