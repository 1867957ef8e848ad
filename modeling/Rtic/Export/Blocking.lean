import Mathlib.Order.Nat
import Rtic.Export.Ceilings
namespace Rtic.Export
open Transition Function
variable {Handler Task Res Reg : Type}

-- The handlers that a device or `pend` has requested, beside the contexts that run.
structure Requests (Handler Task Res Reg : Type) where
  core : State Handler Task Res Reg
  pending : Handler → Bool

inductive Request (Handler Task Res : Type) where
  | pended (handler : Handler)
  | entered (handler : Handler) (priority : Nat)
  | acted (e : Event Handler Task Res)
  deriving DecidableEq, Repr

section
variable [DecidableEq Handler] (backend : Backend Reg) (program : Program Handler Task Res)

-- A request that the hardware lets in.
structure Requests.Due (m : Requests Handler Task Res Reg) (handler : Handler) (priority : Nat) : Prop where
  pending : m.pending handler = true
  interrupt : program.interrupt handler priority
  above : ∀ top ∈ m.core.stack.head?, top.priority < priority
  enabled : m.core.enabled = true
  delivered : backend.delivers m.core.reg priority = true

-- Before the running context goes on, the most urgent request is let in.
inductive Requests.Step : Requests Handler Task Res Reg → Request Handler Task Res → Requests Handler Task Res Reg → Prop where
  | pended (handler : Handler) : Step m (.pended handler) {m with pending := update m.pending handler true}
  | entered (due : m.Due backend program handler priority)
      (urgent : ∀ handler' priority', m.Due backend program handler' priority' → priority' ≤ priority)
      (taken : Export.Step backend program m.core (.preempted handler priority) next) :
      Step m (.entered handler priority) ⟨next,update m.pending handler false⟩
  | acted (own : ∀ handler priority, e ≠ .preempted handler priority)
      (quiet : ∀ handler priority, ¬m.Due backend program handler priority)
      (taken : Export.Step backend program m.core e next) :
      Step m (.acted e) {m with core := next}

def Requests.initial : Requests Handler Task Res Reg := ⟨Export.initial backend program,fun _ => false⟩

abbrev Requests.Run (m : Requests Handler Task Res Reg) :=
  Transition.Run (Requests.Step backend program) (Requests.initial backend program) m
end

-- A context below `priority` takes a step.
def Inverts (priority : Nat) (m : Requests Handler Task Res Reg) (act : Request Handler Task Res) : Prop :=
  (∃ e, act = .acted e) ∧ ∀ top ∈ m.core.stack.head?, top.priority < priority

-- A context below `priority`, above the contexts `below`, is inside the lock, which it took inside the locks `outer`.
-- Whatever has preempted it is not below `priority`.
def Inside (priority : Nat) (lock : Held Res Reg) (outer : List (Held Res Reg))
    (below : List (Frame Handler Task Res Reg)) (m : Requests Handler Task Res Reg) : Prop :=
  ∃ above f inner, m.core.stack = above++f::below ∧ f.held = inner++lock::outer ∧ f.priority < priority ∧
    ∀ g ∈ above, priority ≤ g.priority

-- No context below `priority` holds back what has that priority.
def Outside (program : Program Handler Task Res) (priority : Nat) (m : Requests Handler Task Res Reg) : Prop :=
  ∀ f ∈ m.core.stack, f.priority < priority → ∀ lock ∈ f.held, program.ceiling lock.resource < priority

section
variable {backend : Backend Reg} {program : Program Handler Task Res} {denotes : Reg → Nat → Prop} {raiseOnly : Prop}
  {fits : Nat → Prop}
  {s t : State Handler Task Res Reg} {e : Event Handler Task Res} {m m' : Requests Handler Task Res Reg}
  {act : Request Handler Task Res} {handler : Handler} {priority : Nat}

-- What the running context does to the stack: it returns, or it goes on and takes or leaves at most one lock.
theorem step_frames (taken : Step backend program s e t) (own : ∀ handler priority, e ≠ .preempted handler priority) :
    ∃ top below, s.stack = top::below ∧ (top.point = .leaving ∧ t.stack = below ∨
      ∃ top', t.stack = top'::below ∧ top'.priority = top.priority ∧
        (top'.held = top.held ∨ (∃ lock, top'.held = lock::top.held) ∨ ∃ lock, top.held = lock::top'.held)) := by
  cases taken with
  | preempted running interrupt above enabled delivered => exact absurd rfl (own _ _)
  | began running point => exact ⟨_,_,running,.inr ⟨_,rfl,rfl,.inl rfl⟩⟩
  | called running point free mine => exact ⟨_,_,running,.inr ⟨_,rfl,rfl,.inl rfl⟩⟩
  | disabled running point task mine highest => exact ⟨_,_,running,.inr ⟨_,rfl,rfl,.inr (.inl ⟨_,rfl⟩)⟩⟩
  | reading running point task mine lower => exact ⟨_,_,running,.inr ⟨_,rfl,rfl,.inl rfl⟩⟩
  | raised running point written => exact ⟨_,_,running,.inr ⟨_,rfl,rfl,.inr (.inl ⟨_,rfl⟩)⟩⟩
  | unlocked running point inner => exact ⟨_,_,running,.inr ⟨_,rfl,rfl,.inr (.inr ⟨_,inner⟩)⟩⟩
  | finished running nested point free => exact ⟨_,_,running,.inr ⟨_,rfl,rfl,.inl rfl⟩⟩
  | returned running point => exact ⟨_,_,running,.inl ⟨point,rfl⟩⟩

section
variable [DecidableEq Handler]

theorem Requests.Step.core (taken : Requests.Step backend program m act m') :
    m'.core = m.core ∨ ∃ e, Export.Step backend program m.core e m'.core := by
  cases taken with
  | pended handler => exact .inl rfl
  | entered due urgent taken => exact .inr ⟨_,taken⟩
  | acted own quiet taken => exact .inr ⟨_,taken⟩

-- A request waits until its handler is entered.
theorem Requests.Step.waits (taken : Requests.Step backend program m act m') (pending : m.pending handler = true)
    (untaken : ∀ priority, act ≠ .entered handler priority) : m'.pending handler = true := by
  cases taken with
  | pended other =>
    by_cases same : handler = other
    · subst same
      exact update_self ..
    · exact (update_of_ne same ..).trans pending
  | entered due urgent taken =>
    refine (update_of_ne ?_ ..).trans pending
    rintro rfl
    exact untaken _ rfl
  | acted own quiet taken => exact pending
end

theorem Sound.frame_above {above below : List (Frame Handler Task Res Reg)} {f g : Frame Handler Task Res Reg}
    (sound : Sound program denotes backend.sectionCeiling s) (split : s.stack = above++f::below) (member : g ∈ above) :
    f.priority < g.priority ∧ ∀ lock ∈ f.held, program.ceiling lock.resource < g.priority := by
  have ordered := sound.policy.above
  rw [split,List.map_append,List.pairwise_append] at ordered
  obtain ⟨lower,ceilings⟩ := ordered.2.2 _ (List.mem_map_of_mem member) (view f) List.mem_cons_self
  exact ⟨lower,fun lock held => ceilings _ (List.mem_map_of_mem held)⟩

theorem Sound.frame_below {above below : List (Frame Handler Task Res Reg)} {f g : Frame Handler Task Res Reg}
    (sound : Sound program denotes backend.sectionCeiling s) (split : s.stack = above++f::below) (member : g ∈ below) :
    g.priority < f.priority ∧ ∀ lock ∈ g.held, program.ceiling lock.resource < f.priority := by
  obtain ⟨between,rest,rfl⟩ := List.append_of_mem member
  have split' : s.stack = (above++f::between)++g::rest := by simp [split]
  exact sound.frame_above split' (List.mem_append_right _ List.mem_cons_self)

-- Where nothing below it holds it back, a request is due as soon as a context below it runs.
theorem Outside.due (outside : Outside program priority m) (sound : Sound program denotes backend.sectionCeiling m.core)
    (prompt : Prompt backend program [] m.core) (interrupt : program.interrupt handler priority)
    (pending : m.pending handler = true) (low : ∀ top ∈ m.core.stack.head?, top.priority < priority) :
    m.Due backend program handler priority := by
  have lower : ∀ f ∈ m.core.stack, f.priority < priority := by
    intro f member
    cases running : m.core.stack with
    | nil =>
      rw [running] at member
      cases member
    | cons top below =>
      have first : top.priority < priority := low top (by rw [running]; rfl)
      have split : m.core.stack = []++top::below := running
      rw [running] at member
      rcases List.mem_cons.mp member with rfl | member
      · exact first
      · exact Nat.lt_trans (sound.frame_below split member).1 first
  obtain ⟨enabled,delivered⟩ := prompt handler priority interrupt low fun f member =>
    outside f member (lower f member)
  exact ⟨pending,interrupt,low,enabled,delivered⟩

theorem step_outside [DecidableEq Handler] (outside : Outside program priority m)
    (sound : Sound program denotes backend.sectionCeiling m.core) (prompt : Prompt backend program [] m.core)
    (interrupt : program.interrupt handler priority) (pending : m.pending handler = true)
    (taken : Requests.Step backend program m act m') : Outside program priority m' ∧ ¬Inverts priority m act := by
  cases taken with
  | pended other => exact ⟨outside,fun ⟨⟨_,acts⟩,_⟩ => nomatch acts⟩
  | entered due urgent taken =>
    refine ⟨?_,fun ⟨⟨_,acts⟩,_⟩ => nomatch acts⟩
    cases taken with
    | preempted running interrupt above enabled delivered =>
      intro f member low lock held
      rcases List.mem_cons.mp member with rfl | member
      · cases held
      · exact outside f member low lock held
  | acted own quiet taken =>
    have high : ¬∀ top ∈ m.core.stack.head?, top.priority < priority := fun low =>
      quiet handler priority (outside.due sound prompt interrupt pending low)
    refine ⟨?_,fun ⟨_,low⟩ => high low⟩
    obtain ⟨top,below,running,⟨_,left⟩ | ⟨top',goes,same,_⟩⟩ := step_frames taken own
    · intro f member
      rw [left] at member
      exact outside f (by rw [running]; exact List.mem_cons_of_mem _ member)
    · intro f member low
      rw [goes] at member
      rcases List.mem_cons.mp member with rfl | member
      · exact absurd (by rw [running]; rintro _ ⟨⟩; exact same ▸ low) high
      · exact outside f (by rw [running]; exact List.mem_cons_of_mem _ member) low

-- The last of the elements with a property.
theorem last_split {α : Type} {P : α → Prop} {held : List α} {own : α} (member : own ∈ held) (holds : P own) :
    ∃ inner lock outer, held = inner++lock::outer ∧ P lock ∧ ∀ other ∈ outer, ¬P other := by
  induction held generalizing own with
  | nil => cases member
  | cons first rest ih =>
    by_cases more : ∃ other ∈ rest, P other
    · obtain ⟨other,inside,holds⟩ := more
      obtain ⟨inner,lock,outer,rfl,found,last⟩ := ih inside holds
      exact ⟨first::inner,lock,outer,rfl,found,last⟩
    · rcases List.mem_cons.mp member with rfl | inside
      · exact ⟨[],own,rest,rfl,holds,fun other inside holds => more ⟨other,inside,holds⟩⟩
      · exact absurd ⟨own,inside,holds⟩ more

theorem inside_or_outside (sound : Sound program denotes backend.sectionCeiling m.core) (priority : Nat) :
    Outside program priority m ∨ ∃ lock outer below, Inside priority lock outer below m ∧
      priority ≤ program.ceiling lock.resource ∧ ∀ other ∈ outer, program.ceiling other.resource < priority := by
  refine or_iff_not_imp_left.mpr fun blocked => ?_
  unfold Outside at blocked
  push Not at blocked
  obtain ⟨f,member,low,own,held,covers⟩ := blocked
  obtain ⟨above,below,split⟩ := List.append_of_mem member
  obtain ⟨inner,lock,outer,locks,covers,last⟩ := last_split (P:=fun l => priority ≤ program.ceiling l.resource) held covers
  refine ⟨lock,outer,below,⟨above,f,inner,split,locks,low,fun g higher => ?_⟩,covers,fun other inside => ?_⟩
  · have ceiling := (sound.frame_above split higher).2 lock (by simp [locks])
    exact Nat.le_of_lt (Nat.lt_of_le_of_lt covers ceiling)
  · exact Nat.lt_of_not_le (last other inside)

section
variable {lock : Held Res Reg} {outer : List (Held Res Reg)} {below : List (Frame Handler Task Res Reg)}

theorem Inside.outside {t : Requests Handler Task Res Reg} {f top : Frame Handler Task Res Reg}
    (sound : Sound program denotes backend.sectionCeiling m.core) (running : m.core.stack = f::below)
    (low : f.priority < priority) (goes : t.core.stack = top::below)
    (free : ∀ other ∈ top.held, program.ceiling other.resource < priority) : Outside program priority t := by
  have split : m.core.stack = []++f::below := running
  intro g member _ other held
  rw [goes] at member
  rcases List.mem_cons.mp member with rfl | member
  · exact free other held
  · exact Nat.lt_trans ((sound.frame_below split member).2 other held) low

-- The context inside the lock goes on until it leaves it, and only contexts above `priority` are let in over it.
theorem step_inside [DecidableEq Handler] (encodes : Encodes backend denotes raiseOnly fits)
    (sound : Sound program denotes backend.sectionCeiling m.core) (covers : priority ≤ program.ceiling lock.resource)
    (last : ∀ other ∈ outer, program.ceiling other.resource < priority) (inside : Inside priority lock outer below m)
    (taken : Requests.Step backend program m act m') :
    Inside priority lock outer below m' ∨ Outside program priority m' := by
  obtain ⟨above,f,inner,split,locks,low,high⟩ := inside
  cases taken with
  | pended other => exact .inl ⟨above,f,inner,split,locks,low,high⟩
  | entered due urgent taken =>
    cases taken with
    | preempted running interrupt higher enabled delivered =>
      rename_i q _ top rest
      have admits := sound.admits encodes running higher enabled delivered (view f)
        (List.mem_map_of_mem (by rw [split]; simp))
      have ceiling : program.ceiling lock.resource < q := admits.2 _ (by simp [view,locks])
      refine .inl ⟨_::above,f,inner,congrArg _ split,locks,low,fun g member => ?_⟩
      rcases List.mem_cons.mp member with rfl | member
      · exact Nat.le_of_lt (Nat.lt_of_le_of_lt covers ceiling)
      · exact high g member
  | acted own quiet taken =>
    obtain ⟨top,rest,running,moves⟩ := step_frames taken own
    cases above with
    | cons first above =>
      cases running.symm.trans split
      rcases moves with ⟨_,left⟩ | ⟨top',goes,same,_⟩
      · exact .inl ⟨above,f,inner,left,locks,low,fun g member => high g (List.mem_cons_of_mem _ member)⟩
      · refine .inl ⟨top'::above,f,inner,goes,locks,low,fun g member => ?_⟩
        rcases List.mem_cons.mp member with rfl | member
        · exact same ▸ high top List.mem_cons_self
        · exact high g (List.mem_cons_of_mem _ member)
    | nil =>
      cases running.symm.trans split
      rcases moves with ⟨leaving,_⟩ | ⟨top',goes,same,kept | ⟨more,kept⟩ | ⟨less,kept⟩⟩
      · have free := (sound.topFrame running).free (.inr leaving)
        simp [locks] at free
      · exact .inl ⟨[],top',inner,goes,kept.trans locks,same ▸ low,by simp⟩
      · exact .inl ⟨[],top',more::inner,goes,by simp [kept,locks],same ▸ low,by simp⟩
      · cases inner with
        | nil =>
          -- this is where it leaves the lock
          cases kept.symm.trans locks
          exact .inr (Inside.outside sound running low goes last)
        | cons innermost inner =>
          have held : top'.held = inner++lock::outer := (List.cons.inj (kept.symm.trans locks)).2
          exact .inl ⟨[],top',inner,goes,held,same ▸ low,by simp⟩
end
end

section
variable [DecidableEq Handler] {backend : Backend Reg} {program : Program Handler Task Res}
  {denotes : Reg → Nat → Prop} {raiseOnly : Prop} {fits : Nat → Prop} {m t : Requests Handler Task Res Reg}
  {handler : Handler}
  {priority : Nat}

-- What is known of the states of the backend: the locks are sound, and nothing but a lock holds back a request.
def Requests.Known (backend : Backend Reg) (program : Program Handler Task Res) (denotes : Reg → Nat → Prop)
    (_ : List (Request Handler Task Res)) (m : Requests Handler Task Res Reg) : Prop :=
  Sound program denotes backend.sectionCeiling m.core ∧ Prompt backend program [] m.core

-- The request is not let in.
def Untaken (handler : Handler) (_ : List (Request Handler Task Res)) (_ : Requests Handler Task Res Reg)
    (act : Request Handler Task Res) (_ : Requests Handler Task Res Reg) : Prop :=
  ∀ priority, act ≠ .entered handler priority

theorem run_waits (run : Transition.Run (Requests.Step backend program) m t) (pending : m.pending handler = true)
    (untaken : run.Every (Untaken handler)) : t.pending handler = true := by
  induction run with
  | start => exact pending
  | snoc prior act taken ih => exact taken.waits (ih untaken.1) untaken.2

theorem run_outside (run : Transition.Run (Requests.Step backend program) m t)
    (known : run.Through (Requests.Known backend program denotes)) (interrupt : program.interrupt handler priority)
    (pending : m.pending handler = true) (untaken : run.Every (Untaken handler)) (outside : Outside program priority m) :
    Outside program priority t ∧ run.Every fun _ s act _ => ¬Inverts priority s act := by
  induction run with
  | start => exact ⟨outside,True.intro⟩
  | snoc prior act taken ih =>
    obtain ⟨outside,none_⟩ := ih known.1 untaken.1
    obtain ⟨sound,prompt⟩ := known.1.last
    have waits := run_waits prior pending untaken.1
    obtain ⟨still,not⟩ := step_outside outside sound prompt interrupt waits taken
    exact ⟨still,none_,not⟩

-- The run falls into two parts. In the first, a context below `priority` is inside one and the same lock, whose ceiling
-- covers it. In the second no context below `priority` takes a step.
def SingleSection (priority : Nat) (run : Transition.Run (Requests.Step backend program) m t) : Prop :=
  ∃ mid, ∃ first : Transition.Run (Requests.Step backend program) m mid,
    ∃ second : Transition.Run (Requests.Step backend program) mid t, first.append second = run ∧
      (first.events = [] ∨ ∃ lock outer below, priority ≤ program.ceiling lock.resource ∧
        first.Every fun _ s _ _ => Inside priority lock outer below s) ∧
      second.Every fun _ s act _ => ¬Inverts priority s act

section
variable {lock : Held Res Reg} {outer : List (Held Res Reg)} {below : List (Frame Handler Task Res Reg)}

-- By induction on the run: it is still inside the lock, or it has left it.
theorem run_inside (encodes : Encodes backend denotes raiseOnly fits)
    (run : Transition.Run (Requests.Step backend program) m t)
    (known : run.Through (Requests.Known backend program denotes)) (interrupt : program.interrupt handler priority)
    (pending : m.pending handler = true) (untaken : run.Every (Untaken handler))
    (covers : priority ≤ program.ceiling lock.resource)
    (last : ∀ other ∈ outer, program.ceiling other.resource < priority) (inside : Inside priority lock outer below m) :
    (run.Every fun _ s _ _ => Inside priority lock outer below s) ∧ Inside priority lock outer below t ∨
      SingleSection priority run ∧ Outside program priority t := by
  induction run with
  | start => exact .inl ⟨True.intro,inside⟩
  | snoc prior act taken ih =>
    obtain ⟨sound,prompt⟩ := known.1.last
    rcases ih known.1 untaken.1 with ⟨all,here⟩ | ⟨⟨mid,first,second,same,within,none_⟩,outside⟩
    · rcases step_inside encodes sound covers last here taken with still | left
      · exact .inl ⟨⟨all,here⟩,still⟩
      · exact .inr ⟨⟨_,prior.snoc act taken,.start,rfl,.inr ⟨lock,outer,below,covers,all,here⟩,True.intro⟩,left⟩
    · have waits := run_waits prior pending untaken.1
      obtain ⟨still,not⟩ := step_outside outside sound prompt interrupt waits taken
      refine .inr ⟨⟨mid,first,second.snoc act taken,?_,within,none_,not⟩,still⟩
      rw [← same]
      rfl
end

theorem run_single_section (encodes : Encodes backend denotes raiseOnly fits)
    (run : Transition.Run (Requests.Step backend program) m t)
    (known : run.Through (Requests.Known backend program denotes)) (interrupt : program.interrupt handler priority)
    (pending : m.pending handler = true) (untaken : run.Every (Untaken handler)) : SingleSection priority run := by
  rcases inside_or_outside known.first.1 priority with outside | ⟨lock,outer,below,inside,covers,last⟩
  · exact ⟨m,.start,run,run.start_append,.inl rfl,(run_outside run known interrupt pending untaken outside).2⟩
  · rcases run_inside encodes run known interrupt pending untaken covers last inside with ⟨all,_⟩ | ⟨single,_⟩
    · exact ⟨t,run,.start,rfl,.inr ⟨lock,outer,below,covers,all⟩,True.intro⟩
    · exact single
end
section
variable {backend : Backend Reg} {program : Program Handler Task Res} {s t : State Handler Task Res Reg}
  {e : Event Handler Task Res} {top top' : Frame Handler Task Res Reg} {below : List (Frame Handler Task Res Reg)}

-- Main is under all contexts and does not return.
def Rooted (s : State Handler Task Res Reg) : Prop := ∃ above main, s.stack = above++[main] ∧ main.point ≠ .leaving

theorem Rooted.under (rooted : Rooted s) (running : s.stack = top::below) (nested : below ≠ []) (left : t.stack = below) :
    Rooted t := by
  obtain ⟨above,main,split,stays⟩ := rooted
  cases above with
  | nil =>
    cases running.symm.trans split
    exact absurd rfl nested
  | cons first above =>
    cases running.symm.trans split
    exact ⟨above,main,left,stays⟩

theorem Rooted.push (rooted : Rooted t) (goes : s.stack = top::t.stack) : Rooted s := by
  obtain ⟨above,main,split,stays⟩ := rooted
  exact ⟨top::above,main,goes.trans (congrArg _ split),stays⟩

theorem Rooted.replace (rooted : Rooted s) (running : s.stack = top::below) (goes : t.stack = top'::below)
    (stays : top'.point ≠ .leaving) : Rooted t := by
  by_cases nested : below = []
  · subst nested
    exact ⟨[],top',goes,stays⟩
  · exact (rooted.under (t:={t with stack := below}) running nested rfl).push goes

theorem step_rooted (rooted : Rooted s) (taken : Step backend program s e t) : Rooted t := by
  cases taken with
  | preempted running interrupt above enabled delivered => exact rooted.push rfl
  | began running point => exact rooted.replace running rfl nofun
  | called running point free mine => exact rooted.replace running rfl (by simp [point])
  | disabled running point task mine highest => exact rooted.replace running rfl (by simp [point])
  | reading running point task mine lower => exact rooted.replace running rfl nofun
  | raised running point written => exact rooted.replace running rfl nofun
  | unlocked running point inner => exact rooted.replace running rfl (by simp [point])
  | finished running nested point free =>
    have under := rooted.under (t:={s with stack := _}) running nested rfl
    exact under.push rfl
  | returned running point =>
    obtain ⟨above,main,split,stays⟩ := rooted
    cases above with
    | nil =>
      cases running.symm.trans split
      exact absurd point stays
    | cons first above =>
      cases running.symm.trans split
      exact ⟨above,main,rfl,stays⟩

theorem Rooted.runs (rooted : Rooted s) : ∃ top below, s.stack = top::below := by
  obtain ⟨above,main,split,_⟩ := rooted
  exact List.exists_cons_of_ne_nil (by simp [split])

-- Only main is left, and it is inside no lock.
def Resting (s : State Handler Task Res Reg) : Prop := ∃ main, s.stack = [main] ∧ main.point = .body ∧ main.held = []

-- What the running task may lock no preempted context holds.
def Free (program : Program Handler Task Res) (s : State Handler Task Res Reg) : Prop :=
  ∀ top below task r, s.stack = top::below → top.task = some task → program.locks task r →
    ∀ f ∈ below, r ∉ f.held.map Held.resource

theorem Sound.free {denotes : Reg → Nat → Prop} (sound : Sound program denotes backend.sectionCeiling s)
    (covered : program.Covered) : Free program s := by
  intro top below task r running runs mine f member held
  obtain ⟨lock,inside,rfl⟩ := List.mem_map.mp held
  have split : s.stack = []++top::below := running
  have low := (sound.frame_below split member).2 lock inside
  have frame := sound.topFrame running
  exact absurd (covered _ _ _ _ frame.entered (frame.runs _ runs) mine) (Nat.not_le_of_lt low)

-- The running context can always go on.
theorem step_goes (rooted : Rooted s) (raises : ∀ r, (backend.raise (program.ceiling r) s.reg).isSome) :
    Resting s ∨ ∃ e t, (∀ handler priority, e ≠ .preempted handler priority) ∧ Step backend program s e t := by
  obtain ⟨top,below,running⟩ := rooted.runs
  cases point : top.point with
  | entered => exact .inr ⟨_,_,by nofun,.began running point⟩
  | leaving => exact .inr ⟨_,_,by nofun,.returned running point⟩
  | raising r current =>
    obtain ⟨reg,written⟩ := Option.isSome_iff_exists.mp (raises r)
    exact .inr ⟨_,_,by nofun,.raised running point written⟩
  | body =>
    cases held : top.held with
    | cons lock outer => exact .inr ⟨_,_,by nofun,.unlocked running point held⟩
    | nil =>
      by_cases bottom : below = []
      · subst bottom
        exact .inl ⟨top,running,point,held⟩
      · exact .inr ⟨_,_,by nofun,.finished running bottom point held⟩

-- Of the requests that are due one is the most urgent.
theorem urgent_due {m : Requests Handler Task Res Reg} {bound : Nat}
    (bounded : ∀ handler priority, program.interrupt handler priority → priority ≤ bound) {handler : Handler}
    {priority : Nat} (due : m.Due backend program handler priority) :
    ∃ handler priority, m.Due backend program handler priority ∧
      ∀ handler' priority', m.Due backend program handler' priority' → priority' ≤ priority := by
  classical
  let some_ (priority : Nat) : Prop := ∃ handler, m.Due backend program handler priority
  obtain ⟨first,due⟩ := Nat.findGreatest_spec (P:=some_) (bounded _ _ due.interrupt) ⟨handler,due⟩
  exact ⟨first,_,due,fun other level due => Nat.le_findGreatest (bounded _ _ due.interrupt) ⟨other,due⟩⟩

theorem requests_go [DecidableEq Handler] {m : Requests Handler Task Res Reg} {bound : Nat}
    (bounded : ∀ handler priority, program.interrupt handler priority → priority ≤ bound) (rooted : Rooted m.core)
    (raises : ∀ r, (backend.raise (program.ceiling r) m.core.reg).isSome) :
    Resting m.core ∨ ∃ act m', (∀ handler, act ≠ .pended handler) ∧ Requests.Step backend program m act m' := by
  by_cases waiting : ∃ handler priority, m.Due backend program handler priority
  · obtain ⟨_,_,due⟩ := waiting
    obtain ⟨handler,priority,due,urgent⟩ := urgent_due bounded due
    obtain ⟨top,below,running⟩ := rooted.runs
    have above : top.priority < priority := due.above top (by rw [running]; rfl)
    exact .inr ⟨_,_,by nofun,.entered due urgent (.preempted running due.interrupt above due.enabled due.delivered)⟩
  · have quiet : ∀ handler priority, ¬m.Due backend program handler priority :=
      fun handler priority due => waiting ⟨handler,priority,due⟩
    refine (step_goes rooted raises).imp_right ?_
    rintro ⟨e,t,own,taken⟩
    exact ⟨.acted e,_,nofun,.acted own quiet taken⟩
end
end Rtic.Export
